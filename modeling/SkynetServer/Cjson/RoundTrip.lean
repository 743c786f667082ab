import SkynetServer.Cjson.Accepts
import SkynetServer.Cjson.Text

/-!
# There and back

What `json_decode` makes of the text of a value. Strings come back as they were, whatever bytes they have; numbers come back
rounded to the digits that are printed; `nil` inside an array comes back as `null`; and in a table that is not an array the
keys that are numbers come back as the strings that are printed for them. A value of plain data comes back the same.
-/

namespace SkynetServer.Cjson

/-! ### Strings -/

instance (b : UInt8) (v : Nat) : Decidable (IsHex b v) :=
  inferInstanceAs (Decidable ((48 ≤ b.toNat ∧ b.toNat ≤ 57 ∧ v = b.toNat - 48) ∨
    (65 ≤ b.toNat ∧ b.toNat ≤ 70 ∧ v = b.toNat - 55) ∨ (97 ≤ b.toNat ∧ b.toNat ≤ 102 ∧ v = b.toNat - 87)))

theorem isHex_hexDigit : ∀ c : UInt8, c < 32 ∨ c = 127 →
    IsHex (hexDigit (c / 16)) (c.toNat / 16) ∧ IsHex (hexDigit (c % 16)) (c.toNat % 16) :=
  forall_byte (by decide +kernel)

theorem hex4_control {c : UInt8} (h : c < 32 ∨ c = 127) : Hex4 [48, 48, hexDigit (c / 16), hexDigit (c % 16)] c.toNat := by
  obtain ⟨hhigh, hlow⟩ := isHex_hexDigit c h
  have hzero : IsHex 48 0 := by decide
  exact (Hex4.mk hzero hzero hhigh hlow).of_eq (by omega)

theorem utf8EncodeChar_of_lt {c : Char} {b : UInt8} (hc : c.toNat = b.toNat) (h : b.toNat ≤ 127) :
    String.utf8EncodeChar c = [b] := by
  rw [← codepointToUtf8_toNat, hc, codepointToUtf8, if_pos h]
  simp

theorem body_escape (c : UInt8) {text s rest : List UInt8} (h : Body text s rest) :
    Body ((char2escape c).getD [c] ++ text) (c :: s) rest := by
  unfold char2escape
  split_ifs with h8 h9 h10 h12 h13 hcontrol hself
  · subst h8
    exact .short (by decide) h
  · subst h9
    exact .short (by decide) h
  · subst h10
    exact .short (by decide) h
  · subst h12
    exact .short (by decide) h
  · subst h13
    exact .short (by decide) h
  · have hle : c.toNat ≤ 127 := by
      rcases hcontrol with hlt | rfl
      · have : c.toNat < 32 := hlt
        omega
      · decide
    obtain ⟨point, hpoint⟩ := exists_toNat_eq (n := c.toNat) (.inl (by omega))
    have hbody := Body.unicode (.unit (hpoint ▸ hex4_control hcontrol)) h
    rwa [utf8EncodeChar_of_lt hpoint hle] at hbody
  · rcases hself with rfl | rfl | rfl
    · exact .short (by decide) h
    · exact .short (by decide) h
    · exact .short (by decide) h
  · refine .plain ⟨fun h => hself (.inl h), fun h => hself (.inr (.inr h)), ?_⟩ h
    rintro rfl
    exact hcontrol (.inl (by decide))

theorem body_flatMap (s rest : List UInt8) : Body (s.flatMap (fun c => (char2escape c).getD [c]) ++ 34 :: rest) s rest := by
  induction s with
  | nil => exact .close rest
  | cons c s ih =>
    rw [List.flatMap_cons, List.append_assoc]
    exact body_escape c ih

section

variable {δ : Type} {cfg : Config} {nums : Numbers δ}

theorem Word.lex {text rest : List UInt8} {token : Token δ} (h : Word cfg nums text token rest) : Lex cfg nums text token rest := by
  have hhead : ∃ ch tail, text = ch :: tail ∧ isWhitespace ch = false := by
    cases h with
    | symbol h rest =>
      simp only [symbols, List.mem_cons, Prod.mk.injEq, List.not_mem_nil, or_false] at h
      rcases h with ⟨rfl, -⟩ | ⟨rfl, -⟩ | ⟨rfl, -⟩ | ⟨rfl, -⟩ | ⟨rfl, -⟩ | ⟨rfl, -⟩ <;> exact ⟨_, _, rfl, rfl⟩
    | literal h rest =>
      simp only [literals, List.mem_cons, Prod.mk.injEq, List.not_mem_nil, or_false] at h
      rcases h with ⟨rfl, -⟩ | ⟨rfl, -⟩ | ⟨rfl, -⟩ <;> exact ⟨_, _, rfl, rfl⟩
    | string h => exact ⟨_, _, rfl, rfl⟩
    | number hstart hread hlen =>
      obtain ⟨ch, tail, rfl, ⟨hch, -⟩ | ⟨hch, -⟩⟩ := hstart
      · exact ⟨ch, tail, rfl, by rw [isWhitespace, (isDigitOrMinus_cases ch hch).1]; rfl⟩
      · refine ⟨ch, tail, rfl, ?_⟩
        fin_cases hch <;> rfl
    | endText rest => exact ⟨_, _, rfl, rfl⟩
  obtain ⟨ch, tail, rfl, hch⟩ := hhead
  rw [Lex, List.dropWhile_cons_of_neg (by simp [hch])]
  exact h

theorem lex_quoted (s rest : List UInt8) : Lex cfg nums (quoted s ++ rest) (.string s) rest := by
  have h : Lex cfg nums (34 :: (s.flatMap (fun c => (char2escape c).getD [c]) ++ 34 :: rest)) (.string s) rest :=
    Word.lex (.string (body_flatMap s rest))
  simpa [quoted] using h

/-! ### Numbers -/

/-- A number, printed and read again. -/
def reread (cfg : Config) (nums : Numbers δ) (n : δ) : δ := (nums.strtod (nums.gFmt cfg.encodeNumberPrecision n ++ [0])).1

/-- What can follow a value. -/
def Delimited (rest : List UInt8) : Prop := ∃ b tail, rest = b :: tail ∧ b ∈ [(0 : UInt8), 44, 93, 125]

theorem isOrdinary_digit : ∀ digit : UInt8, 48 ≤ digit ∧ digit ≤ 57 →
    isOrdinary digit = true ∧ digit ≠ 43 ∧ digit ≠ 45 :=
  forall_byte (by decide +kernel)

theorem isInvalidUnsigned_digit {digit : UInt8} {rest : List UInt8} (hdigit : 48 ≤ digit ∧ digit ≤ 57)
    (hzero : digit = 48 → ∃ b ∈ rest.head?, b ∈ [(0 : UInt8), 44, 46, 93, 101, 125]) :
    isInvalidUnsigned (digit :: rest) = .ok false := by
  by_cases h : digit = 48
  · subst h
    obtain ⟨b, hb, hmem⟩ := hzero rfl
    obtain ⟨tail, rfl⟩ := List.head?_eq_some_iff.mp hb
    fin_cases hmem <;> rfl
  · simp [isInvalidUnsigned, h, (isOrdinary_digit digit hdigit).1]

theorem startsNumber_gFmt (hnums : nums.Lawful) {n : δ} (hn : nums.kind n = .finite) {rest : List UInt8}
    (hrest : Delimited rest) : StartsNumber cfg (nums.gFmt cfg.encodeNumberPrecision n ++ rest) := by
  obtain ⟨b, tail, rfl, hb⟩ := hrest
  obtain ⟨sign, digit, digits, heq, hsign, hlow, hhigh, hzero⟩ := hnums.head_gFmt _ cfg.precision_le n hn
  have hunsigned : isInvalidUnsigned (digit :: (digits ++ b :: tail)) = .ok false := by
    refine isInvalidUnsigned_digit ⟨hlow, hhigh⟩ fun h => ?_
    cases digits with
    | nil =>
      refine ⟨b, rfl, ?_⟩
      fin_cases hb <;> decide
    | cons e digits =>
      refine ⟨e, rfl, ?_⟩
      rcases hzero h e rfl with rfl | rfl <;> decide
  have hother := isOrdinary_digit digit ⟨hlow, hhigh⟩
  rw [heq]
  rcases List.mem_pair.mp hsign with rfl | rfl
  · refine ⟨digit, digits ++ b :: tail, rfl, .inl ⟨.inr ⟨hlow, hhigh⟩, .inr ?_⟩⟩
    simpa [jsonIsInvalidNumber, hother.2.1, hother.2.2] using hunsigned
  · refine ⟨45, digit :: digits ++ b :: tail, rfl, .inl ⟨.inl rfl, .inr ?_⟩⟩
    simpa [jsonIsInvalidNumber] using hunsigned

theorem lex_gFmt (hnums : nums.Lawful) {n : δ} (hn : nums.kind n = .finite) {rest : List UInt8} (hrest : Delimited rest) :
    Lex cfg nums (nums.gFmt cfg.encodeNumberPrecision n ++ rest) (.number (reread cfg nums n)) rest := by
  have hstart : StartsNumber cfg (nums.gFmt cfg.encodeNumberPrecision n ++ rest) := startsNumber_gFmt hnums hn hrest
  obtain ⟨b, tail, rfl, hb⟩ := hrest
  have hread := hnums.strtod_gFmt _ cfg.precision_le n hn b tail (by fin_cases hb <;> decide)
  have hpos : 0 < (nums.gFmt cfg.encodeNumberPrecision n).length := by
    obtain ⟨sign, digit, digits, heq, -⟩ := hnums.head_gFmt _ cfg.precision_le n hn
    rw [heq]
    simp
  have hword := Word.number hstart hread hpos
  rw [List.drop_left] at hword
  exact hword.lex

/-! ### Values -/

/-- What a number comes back as. Where numbers that are not finite are printed, they are printed as `null`. -/
def numberImage (cfg : Config) (nums : Numbers δ) (n : δ) : Tree δ :=
  match nums.kind n with
  | .finite => .number (reread cfg nums n)
  | _ => .null

/-- The key that is printed. -/
def keyString (cfg : Config) (nums : Numbers δ) : Value δ → List UInt8
  | .string s => s
  | .number n => (numberText cfg nums n).bytes
  | _ => []

/-- What a value comes back as. -/
def Value.image (cfg : Config) (nums : Numbers δ) (heap : Heap δ) : Nat → Value δ → Tree δ
  | _, .string s => .string s
  | _, .number n => numberImage cfg nums n
  | _, .boolean b => .boolean b
  | rounds + 1, .table t =>
    match luaArrayLength cfg nums (heap t) with
    | .ok (some (n + 1)) =>
      .table (indexed 1 ((List.range' 1 (n + 1)).map fun i => image cfg nums heap rounds (luaRawgeti nums (heap t) i)))
    | _ => .table (setAll [] ((heap t).map fun pair => (keyString cfg nums pair.1, image cfg nums heap rounds pair.2)))
  | _, _ => .null

theorem Out.error_seq {a b : Out} (h : (a.seq b).error = none) :
    a.error = none ∧ b.error = none ∧ (a.seq b).bytes = a.bytes ++ b.bytes := by
  unfold Out.seq at h ⊢
  split at h
  next ha => exact ⟨ha, h, rfl⟩
  next e ha =>
    rw [ha] at h
    cases h

theorem Out.error_separated {part : Out} {parts : List Out} {comma : Bool}
    (h : (Out.separated comma (part :: parts)).error = none) :
    part.error = none ∧ (Out.separated true parts).error = none ∧
      (Out.separated comma (part :: parts)).bytes =
        (if comma then [44] else []) ++ (part.bytes ++ (Out.separated true parts).bytes) := by
  obtain ⟨-, hrest, hbytes⟩ := Out.error_seq h
  obtain ⟨hpart, hparts, hbytes'⟩ := Out.error_seq hrest
  exact ⟨hpart, hparts, by rw [Out.separated, hbytes, hbytes']; rfl⟩

/-- A value is read where its text is, if something follows that ends it. -/
def Reads (cfg : Config) (nums : Numbers δ) (d : Nat) (out : Out) (tree : Tree δ) : Prop :=
  out.error = none → ∀ rest, Delimited rest → Parses cfg nums d (out.bytes ++ rest) (.value tree) rest

theorem lex_symbol {ch : UInt8} {token : Token δ} (h : (ch, token) ∈ symbols) (rest : List UInt8) :
    Lex cfg nums (ch :: rest) token rest := Word.lex (.symbol h rest)

theorem parses_elements {ι : Type} {d : Nat} {out : ι → Out} {tree : ι → Tree δ}
    (h : ∀ i, Reads cfg nums d (out i) (tree i)) (i : ι) (items : List ι) (rest : List UInt8)
    (hi : (out i).error = none) (hitems : (Out.separated true (items.map out)).error = none) :
    Parses cfg nums d ((out i).bytes ++ ((Out.separated true (items.map out)).bytes ++ 93 :: rest))
      (.elements (tree i :: items.map tree)) rest := by
  induction items generalizing i with
  | nil => exact .lastElement (h i hi (93 :: rest) ⟨93, rest, rfl, by decide⟩) (lex_symbol (by simp [symbols]) rest)
  | cons j items ih =>
    obtain ⟨hj, hrest, hbytes⟩ := Out.error_separated hitems
    rw [List.map_cons, hbytes, if_pos rfl, List.append_assoc, List.append_assoc]
    exact .element (h i hi _ ⟨44, _, rfl, by decide⟩) (lex_symbol (by simp [symbols]) _) (ih j hj hrest)

theorem char2escape_of_isNumeral : ∀ b : UInt8, isNumeral b = true → char2escape b = none :=
  forall_byte (by decide +kernel)

theorem char2escape_numberText (hnums : nums.Lawful) (n : δ) : ∀ b ∈ (numberText cfg nums n).bytes, char2escape b = none := by
  unfold numberText
  split
  next hkind =>
    intro b hb
    exact char2escape_of_isNumeral b (hnums.isNumeral_gFmt _ cfg.precision_le n hkind b hb)
  all_goals
    simp only [Out.ok, Out.fail, List.map_cons, List.map_nil, List.forall_mem_cons, List.not_mem_nil, false_imp_iff, implies_true]
  all_goals decide

theorem quoted_of_char2escape {s : List UInt8} (h : ∀ b ∈ s, char2escape b = none) : quoted s = 34 :: s ++ [34] := by
  have hflat : s.flatMap (fun c => (char2escape c).getD [c]) = s := by
    induction s with
    | nil => rfl
    | cons b s ih =>
      rw [List.flatMap_cons, h b List.mem_cons_self, ih fun c hc => h c (List.mem_cons_of_mem _ hc)]
      rfl
  rw [quoted, hflat]

theorem keyText_eq (hnums : nums.Lawful) {key : Value δ} (h : (keyText cfg nums key).error = none) :
    (keyText cfg nums key).bytes = quoted (keyString cfg nums key) ++ [58] := by
  cases key with
  | string s => rfl
  | number n =>
    obtain ⟨-, hrest, hbytes⟩ := Out.error_seq h
    obtain ⟨hnumber, -, hbytes'⟩ := Out.error_seq hrest
    rw [keyText, hbytes, hbytes', keyString, quoted_of_char2escape (char2escape_numberText hnums n)]
    simp [Out.ok]
  | _ => cases h

theorem parses_members {d : Nat} {out : Value δ → Out} {tree : Value δ → Tree δ} (hnums : nums.Lawful)
    (h : ∀ value, Reads cfg nums d (out value) (tree value)) (pair : Value δ × Value δ) (pairs : List (Value δ × Value δ))
    (rest : List UInt8) (hpair : ((keyText cfg nums pair.1).seq (out pair.2)).error = none)
    (hpairs : (Out.separated true (pairs.map fun pair => (keyText cfg nums pair.1).seq (out pair.2))).error = none) :
    Parses cfg nums d (((keyText cfg nums pair.1).seq (out pair.2)).bytes ++
        ((Out.separated true (pairs.map fun pair => (keyText cfg nums pair.1).seq (out pair.2))).bytes ++ 125 :: rest))
      (.members ((pair :: pairs).map fun pair => (keyString cfg nums pair.1, tree pair.2))) rest := by
  induction pairs generalizing pair with
  | nil =>
    obtain ⟨hkey, hvalue, hbytes⟩ := Out.error_seq hpair
    rw [hbytes, keyText_eq hnums hkey, List.append_assoc, List.append_assoc]
    exact .lastMember (lex_quoted _ _) (lex_symbol (by simp [symbols]) _)
      (h pair.2 hvalue (125 :: rest) ⟨125, rest, rfl, by decide⟩) (lex_symbol (by simp [symbols]) rest)
  | cons next pairs ih =>
    obtain ⟨hkey, hvalue, hbytes⟩ := Out.error_seq hpair
    obtain ⟨hnext, hrest, hbytes'⟩ := Out.error_separated hpairs
    rw [hbytes, keyText_eq hnums hkey, List.map_cons, hbytes', if_pos rfl, List.append_assoc, List.append_assoc,
      List.append_assoc, List.append_assoc]
    exact .member (lex_quoted _ _) (lex_symbol (by simp [symbols]) _) (h pair.2 hvalue _ ⟨44, _, rfl, by decide⟩)
      (lex_symbol (by simp [symbols]) _) (ih next hnext hrest)

theorem lex_literal {word : List UInt8} {token : Token δ} (h : (word, token) ∈ literals) (rest : List UInt8) :
    Lex cfg nums (word ++ rest) token rest := Word.lex (.literal h rest)

theorem reads_null (d : Nat) : Reads cfg nums d (.ok (['n', 'u', 'l', 'l'].map Char.toUInt8)) .null := by
  intro _ rest _
  have hlex : Lex cfg nums (['n', 'u', 'l', 'l'].map Char.toUInt8 ++ rest) .null rest := lex_literal (by simp [literals]) rest
  exact .null hlex

theorem reads_boolean (d : Nat) (b : Bool) : Reads cfg nums d
    (.ok ((if b then ['t', 'r', 'u', 'e'] else ['f', 'a', 'l', 's', 'e']).map Char.toUInt8)) (.boolean b) := by
  intro _ rest _
  have hlex : Lex cfg nums ((if b then ['t', 'r', 'u', 'e'] else ['f', 'a', 'l', 's', 'e']).map Char.toUInt8 ++ rest)
      (.boolean b) rest := lex_literal (by cases b <;> simp [literals]) rest
  exact .boolean hlex

theorem reads_number (hnums : nums.Lawful) (hinvalid : cfg.encodeInvalidNumbers ≠ .on) (d : Nat) (n : δ) :
    Reads cfg nums d (numberText cfg nums n) (numberImage cfg nums n) := by
  have hother : nums.kind n ≠ .finite → Reads cfg nums d (numberText cfg nums n) .null := by
    intro hkind
    cases hmode : cfg.encodeInvalidNumbers with
    | off =>
      intro herror
      cases hk : nums.kind n with
      | finite => exact absurd hk hkind
      | _ => simp [numberText, hk, hmode, Out.fail] at herror
    | on => exact absurd hmode hinvalid
    | null =>
      have htext : numberText cfg nums n = .ok (['n', 'u', 'l', 'l'].map Char.toUInt8) := by
        cases hk : nums.kind n with
        | finite => exact absurd hk hkind
        | _ => simp only [numberText, hk, hmode]
      rw [htext]
      exact reads_null d
  cases hkind : nums.kind n with
  | finite =>
    intro herror rest hrest
    simp only [numberText, numberImage, hkind]
    exact .number (lex_gFmt hnums hkind hrest)
  | nan =>
    rw [numberImage, hkind]
    exact hother (by simp [hkind])
  | infinite negative =>
    rw [numberImage, hkind]
    exact hother (by simp [hkind])

theorem reads_text_of_ne (hnums : nums.Lawful) (hinvalid : cfg.encodeInvalidNumbers ≠ .on) (heap : Heap δ)
    (rounds depth d : Nat) {value : Value δ} (hvalue : value.type ≠ .table) :
    Reads cfg nums d (value.text cfg nums heap rounds depth) (value.image cfg nums heap rounds) := by
  cases rounds <;>
  · cases value with
    | table t => exact absurd rfl hvalue
    | string s => exact fun _ rest _ => .string (lex_quoted s rest)
    | number n => exact reads_number hnums hinvalid d n
    | boolean b =>
      cases b
      · exact reads_boolean d false
      · exact reads_boolean d true
    | nil => exact reads_null d
    | lightuserdata p =>
      cases p with
      | none => exact reads_null d
      | some _ => exact fun herror => absurd herror (by simp [Value.text, Out.fail])
    | _ => exact fun herror => absurd herror (by simp [Value.text, Out.fail])

theorem reads_array {ι : Type} {d : Nat} {out : ι → Out} {tree : ι → Tree δ} (h : ∀ i, Reads cfg nums d (out i) (tree i))
    (i : ι) (items : List ι) :
    Reads cfg nums (d + 1) ((Out.ok [91]).seq ((Out.separated false ((i :: items).map out)).seq (.ok [93])))
      (.table (indexed 1 ((i :: items).map tree))) := by
  intro herror rest hrest
  obtain ⟨-, hinner, hbytes⟩ := Out.error_seq herror
  obtain ⟨hparts, -, hbytes'⟩ := Out.error_seq hinner
  obtain ⟨hi, hitems, hbytes''⟩ := Out.error_separated hparts
  have helements := parses_elements h i items rest hi hitems
  rw [hbytes, hbytes', List.map_cons, hbytes'']
  refine .array (lex_symbol (by simp [symbols]) _) ?_
  simpa [Out.ok] using helements

theorem reads_object {d : Nat} {out : Value δ → Out} {tree : Value δ → Tree δ} (hnums : nums.Lawful)
    (h : ∀ value, Reads cfg nums d (out value) (tree value)) (pairs : List (Value δ × Value δ)) :
    Reads cfg nums (d + 1) ((Out.ok [123]).seq
        ((Out.separated false (pairs.map fun pair => (keyText cfg nums pair.1).seq (out pair.2))).seq (.ok [125])))
      (.table (setAll [] (pairs.map fun pair => (keyString cfg nums pair.1, tree pair.2)))) := by
  intro herror rest hrest
  obtain ⟨-, hinner, hbytes⟩ := Out.error_seq herror
  obtain ⟨hparts, -, hbytes'⟩ := Out.error_seq hinner
  rw [hbytes, hbytes']
  cases pairs with
  | nil => exact .emptyObject (lex_symbol (by simp [symbols]) _) (lex_symbol (by simp [symbols]) rest)
  | cons pair pairs =>
    obtain ⟨hpair, hpairs, hbytes''⟩ := Out.error_separated hparts
    have hmembers := parses_members hnums h pair pairs rest hpair hpairs
    rw [List.map_cons, hbytes'']
    refine .object (lex_symbol (by simp [symbols]) _) ?_
    simpa [Out.ok] using hmembers

theorem reads_text (hnums : nums.Lawful) (hinvalid : cfg.encodeInvalidNumbers ≠ .on) (heap : Heap δ) (rounds depth d : Nat)
    (hdepth : cfg.encodeMaxDepth ≤ depth + d) (value : Value δ) :
    Reads cfg nums d (value.text cfg nums heap rounds depth) (value.image cfg nums heap rounds) := by
  induction rounds generalizing depth d value with
  | zero =>
    cases value with
    | table t => exact fun herror => absurd herror (by simp [Value.text, Out.fail])
    | _ => exact reads_text_of_ne hnums hinvalid heap 0 depth d (by simp [Value.type])
  | succ rounds ih =>
    cases value with
    | table t =>
      rw [Value.text, Value.image]
      by_cases hmore : depth + 1 ≤ cfg.encodeMaxDepth
      · obtain ⟨d, rfl⟩ := Nat.exists_eq_add_one.mpr (show 0 < d by omega)
        have hnext := ih (depth + 1) d (by omega)
        rw [if_pos hmore]
        rcases luaArrayLength cfg nums (heap t) with e | len
        · exact fun herror => absurd herror (by simp [Out.fail])
        · rcases len with - | - | n
          · exact reads_object hnums hnext (heap t)
          · exact reads_object hnums hnext (heap t)
          · exact reads_array (fun i => hnext (luaRawgeti nums (heap t) i)) 1 (List.range' 2 n)
      · rw [if_neg hmore]
        exact fun herror => absurd herror (by simp [Out.fail])
    | _ => exact reads_text_of_ne hnums hinvalid heap (rounds + 1) depth d (by simp [Value.type])

/-! ### Nothing in a text ends it -/

theorem Out.zero_notMem_seq {a b : Out} (ha : 0 ∉ a.bytes) (hb : 0 ∉ b.bytes) : 0 ∉ (a.seq b).bytes := by
  unfold Out.seq
  split
  · simp [ha, hb]
  · exact ha

theorem Out.zero_notMem_separated {parts : List Out} (h : ∀ part ∈ parts, 0 ∉ part.bytes) (comma : Bool) :
    0 ∉ (Out.separated comma parts).bytes := by
  induction parts generalizing comma with
  | nil => simp [Out.separated, Out.ok]
  | cons part parts ih =>
    refine Out.zero_notMem_seq (by cases comma <;> simp [Out.ok]) (Out.zero_notMem_seq (h part List.mem_cons_self) ?_)
    exact ih (fun other hother => h other (List.mem_cons_of_mem _ hother)) true

theorem zero_notMem_escape : ∀ c : UInt8, 0 ∉ (char2escape c).getD [c] := forall_byte (by decide +kernel)

theorem zero_notMem_quoted (s : List UInt8) : 0 ∉ quoted s := by
  simp only [quoted, List.cons_append, List.mem_cons, List.mem_append, List.mem_flatMap, List.not_mem_nil, or_false]
  rintro (h | ⟨c, -, hc⟩ | h)
  · cases h
  · exact zero_notMem_escape c hc
  · cases h

theorem zero_notMem_numberText (hnums : nums.Lawful) (n : δ) : 0 ∉ (numberText cfg nums n).bytes := by
  intro h
  have hzero := char2escape_numberText hnums n 0 h
  cases hzero

theorem zero_notMem_keyText (hnums : nums.Lawful) (key : Value δ) : 0 ∉ (keyText cfg nums key).bytes := by
  cases key with
  | string s => simp [keyText, Out.ok, zero_notMem_quoted s]
  | number n =>
    exact Out.zero_notMem_seq (by simp [Out.ok]) (Out.zero_notMem_seq (zero_notMem_numberText hnums n) (by simp [Out.ok]))
  | _ => simp [keyText, Out.fail]

theorem zero_notMem_text_of_ne (hnums : nums.Lawful) (heap : Heap δ) (rounds depth : Nat) {value : Value δ}
    (hvalue : value.type ≠ .table) : 0 ∉ (value.text cfg nums heap rounds depth).bytes := by
  cases rounds <;>
  · cases value with
    | table t => exact absurd rfl hvalue
    | string s => exact zero_notMem_quoted s
    | number n => exact zero_notMem_numberText hnums n
    | boolean b => cases b <;> simp only [Value.text, Out.ok] <;> decide
    | nil => simp only [Value.text, Out.ok]; decide
    | lightuserdata p => cases p <;> simp only [Value.text, Out.ok, Out.fail] <;> decide
    | _ => simp [Value.text, Out.fail]

theorem zero_notMem_text (hnums : nums.Lawful) (heap : Heap δ) (rounds depth : Nat) (value : Value δ) :
    0 ∉ (value.text cfg nums heap rounds depth).bytes := by
  induction rounds generalizing depth value with
  | zero =>
    cases value with
    | table t => simp [Value.text, Out.fail]
    | _ => exact zero_notMem_text_of_ne hnums heap 0 depth (by simp [Value.type])
  | succ rounds ih =>
    cases value with
    | table t =>
      rw [Value.text]
      have hmembers : ∀ part ∈ (heap t).map fun pair =>
          (keyText cfg nums pair.1).seq (pair.2.text cfg nums heap rounds (depth + 1)), 0 ∉ part.bytes := by
        intro part hpart
        obtain ⟨pair, -, rfl⟩ := List.mem_map.mp hpart
        exact Out.zero_notMem_seq (zero_notMem_keyText hnums pair.1) (ih (depth + 1) pair.2)
      have hobject := Out.zero_notMem_seq (a := .ok [123]) (by simp [Out.ok])
        (Out.zero_notMem_seq (b := .ok [125]) (Out.zero_notMem_separated hmembers false) (by simp [Out.ok]))
      split_ifs
      · rcases luaArrayLength cfg nums (heap t) with e | len
        · simp [Out.fail]
        · rcases len with - | - | n
          · exact hobject
          · exact hobject
          · refine Out.zero_notMem_seq (by simp [Out.ok])
              (Out.zero_notMem_seq (Out.zero_notMem_separated ?_ false) (by simp [Out.ok]))
            intro part hpart
            obtain ⟨i, -, rfl⟩ := List.mem_map.mp hpart
            exact ih (depth + 1) _
      · simp [Out.fail]
    | _ => exact zero_notMem_text_of_ne hnums heap (rounds + 1) depth (by simp [Value.type])

theorem not_utf16_of_zero_notMem {text : List UInt8} (h : 0 ∉ text) : ¬ Utf16 text := by
  rintro ⟨-, hzero | hzero⟩
  · exact h (List.mem_of_getElem? hzero)
  · exact h (List.mem_of_getElem? hzero)

/-! ### The round trip -/

theorem denotes_encoded (hnums : nums.Lawful) (hinvalid : cfg.encodeInvalidNumbers ≠ .on)
    (hdepth : cfg.encodeMaxDepth ≤ cfg.decodeMaxDepth) {heap : Heap δ} {value : Value δ}
    (herror : (value.encoded cfg nums heap).error = none) :
    Denotes cfg nums (value.encoded cfg nums heap).bytes (value.image cfg nums heap (cfg.encodeMaxDepth + 1)) := by
  have hreads := reads_text hnums hinvalid heap (cfg.encodeMaxDepth + 1) 0 cfg.decodeMaxDepth (by omega) value herror [0]
    ⟨0, [], rfl, by decide⟩
  exact ⟨[0], [0], hreads, Word.lex (.endText [])⟩

theorem decode_encoded (hnums : nums.Lawful) (hinvalid : cfg.encodeInvalidNumbers ≠ .on)
    (hdepth : cfg.encodeMaxDepth ≤ cfg.decodeMaxDepth) {heap : Heap δ} {value : Value δ}
    (herror : (value.encoded cfg nums heap).error = none) (hlen : (value.encoded cfg nums heap).bytes.length < intMax) :
    jsonDecode cfg nums (value.encoded cfg nums heap).bytes = .ok (value.image cfg nums heap (cfg.encodeMaxDepth + 1)) :=
  jsonDecode_of_denotes hlen (not_utf16_of_zero_notMem (zero_notMem_text hnums heap _ _ value))
    (denotes_encoded hnums hinvalid hdepth herror)

/-- **There and back.** Of what a call of `encode` returns, whatever the value and the heap, `decode` makes the image of the
value. -/
theorem jsonDecode_jsonEncode (hnums : nums.Lawful) (hinvalid : cfg.encodeInvalidNumbers ≠ .on)
    (hdepth : cfg.encodeMaxDepth ≤ cfg.decodeMaxDepth) (heap : Heap δ) (value : Value δ) {kept kept' : Strbuf}
    (hkept : kept.Sound) (hfits : 6 * (value.encoded cfg nums heap).bytes.length + 32 < Strbuf.limit) {text : List UInt8}
    (hrun : jsonEncode cfg nums heap kept value = (.ok text, kept')) :
    jsonDecode cfg nums text = .ok (value.image cfg nums heap (cfg.encodeMaxDepth + 1)) := by
  obtain ⟨_, hencode, -⟩ := jsonEncode_eq hnums hkept hfits
  rw [hencode] at hrun
  have hanswer := (Prod.mk.inj hrun).1
  unfold Out.answer at hanswer
  split at hanswer
  next herror =>
    cases hanswer
    refine decode_encoded hnums hinvalid hdepth herror ?_
    unfold Strbuf.limit at hfits
    unfold intMax
    omega
  next => cases hanswer

end

/-- In a sparse array the indices become strings. -/
theorem jsonDecode_jsonEncode_sparse :
    let heap : Heap (Fin 10) := fun _ => [(.number 3, .string [47])]
    jsonDecode Config.packer digits [123, 34, 51, 34, 58, 34, 92, 47, 34, 125] =
      .ok ((Value.table 0).image Config.packer digits heap 1001) := by
  intro heap
  refine @jsonDecode_jsonEncode (Fin 10) Config.packer digits lawful_digits (by decide) (by decide) heap (.table 0)
    ⟨Strbuf.defaultSize, []⟩ ⟨Strbuf.defaultSize, [123, 34, 51, 34, 58, 34, 92, 47, 34, 125]⟩ ⟨by decide, by decide⟩ ?_ _ ?_
  · decide
  · rfl

end SkynetServer.Cjson
