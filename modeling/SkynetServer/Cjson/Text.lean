import SkynetServer.Cjson.Encode
import SkynetServer.Lib.Simulation

/-!
# What an encoding writes

The text of a value is the concatenation of the texts of its parts, up to the first part that cannot be written. Each of the
functions of the encoder appends it to the buffer.
-/

namespace SkynetServer.Cjson

/-- The bytes that are written, and the error that stops the writing. -/
structure Out where
  bytes : List UInt8
  error : Option EncodeError

namespace Out

def ok (bytes : List UInt8) : Out := ⟨bytes, none⟩

def fail (e : EncodeError) : Out := ⟨[], some e⟩

def seq (a b : Out) : Out :=
  match a.error with
  | none => ⟨a.bytes ++ b.bytes, b.error⟩
  | some _ => a

/-- The parts, with a comma between them. -/
def separated : Bool → List Out → Out
  | _, [] => ok []
  | comma, part :: parts => (ok (if comma then [44] else [])).seq (part.seq (separated true parts))

end Out

/-- A string between quotes, with its escapes. -/
def quoted (s : List UInt8) : List UInt8 := 34 :: s.flatMap (fun c => (char2escape c).getD [c]) ++ [34]

section

variable {δ : Type} (cfg : Config) (nums : Numbers δ) (heap : Heap δ)

def numberText (n : δ) : Out :=
  match nums.kind n, cfg.encodeInvalidNumbers with
  | .finite, _ => .ok (nums.gFmt cfg.encodeNumberPrecision n)
  | _, .off => .fail (.serialise .number "must not be NaN or Infinity")
  | .nan, .on => .ok (['N', 'a', 'N'].map Char.toUInt8)
  | .infinite true, .on => .ok (['-', 'I', 'n', 'f', 'i', 'n', 'i', 't', 'y'].map Char.toUInt8)
  | .infinite false, .on => .ok (['I', 'n', 'f', 'i', 'n', 'i', 't', 'y'].map Char.toUInt8)
  | _, .null => .ok (['n', 'u', 'l', 'l'].map Char.toUInt8)

def keyText : Value δ → Out
  | .number n => (Out.ok [34]).seq ((numberText cfg nums n).seq (.ok [34, 58]))
  | .string s => .ok (quoted s ++ [58])
  | key => .fail (.serialise key.type "table key must be a number or string")

/-- The text of a value at a depth. Deeper than the configuration allows there is none. -/
def Value.text : Nat → Nat → Value δ → Out
  | _, _, .string s => .ok (quoted s)
  | _, _, .number n => numberText cfg nums n
  | _, _, .boolean true => .ok (['t', 'r', 'u', 'e'].map Char.toUInt8)
  | _, _, .boolean false => .ok (['f', 'a', 'l', 's', 'e'].map Char.toUInt8)
  | 0, _, .table _ => .fail .fault
  | rounds + 1, depth, .table t =>
    if depth + 1 ≤ cfg.encodeMaxDepth then
      match luaArrayLength cfg nums (heap t) with
      | .error e => .fail e
      | .ok (some (n + 1)) =>
        let elements := (List.range' 1 (n + 1)).map fun i => text rounds (depth + 1) (luaRawgeti nums (heap t) i)
        (Out.ok [91]).seq ((Out.separated false elements).seq (.ok [93]))
      | .ok _ =>
        let members := (heap t).map fun pair => (keyText cfg nums pair.1).seq (text rounds (depth + 1) pair.2)
        (Out.ok [123]).seq ((Out.separated false members).seq (.ok [125]))
    else .fail (.nesting (depth + 1))
  | _, _, .nil => .ok (['n', 'u', 'l', 'l'].map Char.toUInt8)
  | _, _, .lightuserdata none => .ok (['n', 'u', 'l', 'l'].map Char.toUInt8)
  | _, _, value => .fail (.serialise value.type "type not supported")

end

/-! ### Writing it -/

/-- So much may be written that a buffer still holds it when each of its bytes is escaped. -/
def Fits (json : Strbuf) (out : Out) : Prop := 6 * (json.length + out.bytes.length) + 32 < Strbuf.limit

/-- The outcome is that `out` has been appended. -/
def Wrote (json : Strbuf) (out : Out) (r : Encoding) : Prop :=
  ∃ json', json.Extends json' out.bytes ∧ r = match out.error with
    | none => .ok json'
    | some e => .error (e, json')

/-- The function appends `out` to every buffer that has room for it. -/
def Appends (f : Strbuf → Encoding) (out : Out) : Prop := ∀ json, json.Sound → Fits json out → Wrote json out (f json)

theorem Fits.left {json : Strbuf} {a b : Out} (h : Fits json (a.seq b)) : Fits json a := by
  unfold Fits Out.seq at *
  split at h
  · simp only [List.length_append] at h
    omega
  · exact h

theorem Fits.right {json json' : Strbuf} {a b : Out} (ha : a.error = none) (h : Fits json (a.seq b))
    (hext : json.Extends json' a.bytes) : Fits json' b := by
  unfold Fits Out.seq at *
  rw [hext.length_eq]
  simp only [ha, List.length_append] at h
  omega

theorem Appends.bind {f g : Strbuf → Encoding} {a b : Out} (hf : Appends f a) (hg : Appends g b) :
    Appends (fun json => f json >>= g) (a.seq b) := by
  intro json hsound hfits
  obtain ⟨json', hext, hrun⟩ := hf json hsound hfits.left
  cases hte : a.error with
  | none =>
    obtain ⟨json'', hext', hrun'⟩ := hg json' hext.sound (hfits.right hte hext)
    refine ⟨json'', ?_, ?_⟩
    · simpa only [Out.seq, hte] using hext.trans hext'
    · simp only [hrun, hte, Out.seq]
      exact hrun'
  | some e =>
    refine ⟨json', ?_, ?_⟩
    · simpa only [Out.seq, hte] using hext
    · simp only [hrun, hte, Out.seq]
      rfl

theorem appends_ok {f : Strbuf → Option Strbuf} {bytes : List UInt8}
    (h : ∀ json : Strbuf, json.Sound → 6 * (json.length + bytes.length) + 32 < Strbuf.limit →
      ∃ json', f json = some json' ∧ json.Extends json' bytes) :
    Appends (fun json => written json (f json)) (.ok bytes) := by
  intro json hsound hfits
  obtain ⟨json', hrun, hext⟩ := h json hsound hfits
  refine ⟨json', hext, ?_⟩
  show written json (f json) = _
  rw [hrun]
  rfl

theorem appends_fail (e : EncodeError) : Appends (fun json => .error (e, json)) (.fail e) :=
  fun json hsound _ => ⟨json, .refl hsound, rfl⟩

theorem appends_nothing : Appends .ok (.ok []) := fun json hsound _ => ⟨json, .refl hsound, rfl⟩

theorem appends_appendMem (mem : List UInt8) : Appends (fun json => written json (json.appendMem mem)) (.ok mem) := by
  apply appends_ok
  intro json hsound hfits
  exact hsound.appendMem_spec (by omega)

theorem appends_appendChar (c : UInt8) : Appends (fun json => written json (json.appendChar c)) (.ok [c]) := by
  apply appends_ok
  intro json hsound hfits
  rw [List.length_singleton] at hfits
  exact hsound.appendChar_spec (by omega)

/-! ### Strings -/

theorem length_escape_le (c : UInt8) : ((char2escape c).getD [c]).length ≤ 6 := by
  unfold char2escape
  split_ifs <;> simp

theorem appendEscaped_of_room {s : Strbuf} (c : UInt8) (h : s.length + 6 < s.size) :
    appendEscaped s c = some { s with bytes := s.bytes ++ (char2escape c).getD [c] } := by
  have hlen := length_escape_le c
  unfold appendEscaped
  split
  next escstr hesc =>
    rw [hesc, Option.getD_some] at hlen ⊢
    exact Strbuf.appendString_of_room (by omega)
  next hesc =>
    rw [hesc, Option.getD_none]
    exact Strbuf.appendCharUnsafe_of_room (by omega) c

/-- With six bytes for each byte of the string the loop does not have to look for more. -/
theorem foldlM_appendEscaped {s : Strbuf} {str : List UInt8} (h : s.length + 6 * str.length < s.size) :
    str.foldlM appendEscaped s = some { s with bytes := s.bytes ++ str.flatMap fun c => (char2escape c).getD [c] } := by
  induction str generalizing s with
  | nil => simp
  | cons c str ih =>
    rw [List.length_cons] at h
    rw [List.foldlM_cons, appendEscaped_of_room c (by omega)]
    have hlen := length_escape_le c
    have hrest := @ih { s with bytes := s.bytes ++ (char2escape c).getD [c] } (by
      simp only [Strbuf.length, List.length_append] at h ⊢
      omega)
    simpa using hrest

theorem length_le_flatMap_escape (str : List UInt8) :
    str.length ≤ (str.flatMap fun c => (char2escape c).getD [c]).length := by
  induction str with
  | nil => exact Nat.le_refl _
  | cons c str ih =>
    have hpos : 0 < ((char2escape c).getD [c]).length := by
      unfold char2escape
      split_ifs <;> simp
    rw [List.flatMap_cons, List.length_append, List.length_cons]
    omega

theorem length_flatMap_escape_le (str : List UInt8) :
    (str.flatMap fun c => (char2escape c).getD [c]).length ≤ 6 * str.length := by
  induction str with
  | nil => exact Nat.le_refl _
  | cons c str ih =>
    have hlen := length_escape_le c
    rw [List.flatMap_cons, List.length_append, List.length_cons]
    omega

theorem toInt_of_lt {n : Nat} (h : n < Strbuf.limit) : toInt n = n := by
  unfold Strbuf.limit at h
  exact Int.bmod_eq_of_le (by omega) (by omega)

theorem appends_jsonAppendString (str : List UInt8) :
    Appends (fun json => written json (jsonAppendString json str)) (.ok (quoted str)) := by
  apply appends_ok
  intro json hsound hfits
  have hshort := length_le_flatMap_escape str
  have hlong := length_flatMap_escape_le str
  have hquoted : (quoted str).length = (str.flatMap fun c => (char2escape c).getD [c]).length + 2 := by simp [quoted]
  obtain ⟨size, hensure, hold, hroom, hint⟩ := hsound.ensureEmptyLength_spec
    (show json.length + (str.length * 6 + 2) < Strbuf.limit by omega)
  refine ⟨{ size, bytes := json.bytes ++ quoted str }, ?_, ⟨?_, hint⟩, rfl, hold⟩
  · have hopen : ({ json with size } : Strbuf).appendCharUnsafe 34 = some { size, bytes := json.bytes ++ [34] } :=
      Strbuf.appendCharUnsafe_of_room (by simp only [Strbuf.length] at hroom ⊢; omega) 34
    have hloop := @foldlM_appendEscaped { size, bytes := json.bytes ++ [34] } str (by
      simp only [Strbuf.length, List.length_append, List.length_singleton] at hroom ⊢
      omega)
    rw [jsonAppendString, toInt_of_lt (by omega), hensure, Option.bind_eq_bind, Option.bind_some, hopen,
      Option.bind_some, hloop, Option.bind_some, Strbuf.appendCharUnsafe_of_room]
    · simp [quoted]
    · simp only [Strbuf.length, List.length_append, List.length_singleton] at hroom ⊢
      omega
  · simp only [Strbuf.length, List.length_append] at hroom ⊢
    omega

/-! ### Values -/

section

variable {δ : Type} {cfg : Config} {nums : Numbers δ}

theorem appends_gFmt (hnums : nums.Lawful) {n : δ} (hn : nums.kind n = .finite) :
    Appends (fun json => jsonAppendNumber cfg nums json n) (.ok (nums.gFmt cfg.encodeNumberPrecision n)) := by
  have hshort := hnums.length_gFmt _ cfg.precision_le n hn
  have hrun : (fun json => jsonAppendNumber cfg nums json n) = fun json => written json (do
      let json ← json.ensureEmptyLength fpconvGFmtBufsize
      if json.length + (nums.gFmt cfg.encodeNumberPrecision n).length < json.size then
        some { json with bytes := json.bytes ++ nums.gFmt cfg.encodeNumberPrecision n }
      else none) := by
    funext json
    unfold jsonAppendNumber
    rw [hn]
  rw [hrun]
  apply appends_ok
  intro json hsound hfits
  unfold fpconvGFmtBufsize at hshort
  obtain ⟨size, hensure, hold, hroom, hint⟩ := hsound.ensureEmptyLength_spec
    (show json.length + 32 < Strbuf.limit by omega)
  refine ⟨{ size, bytes := json.bytes ++ nums.gFmt cfg.encodeNumberPrecision n }, ?_, ⟨?_, hint⟩, rfl, hold⟩
  · rw [show ((fpconvGFmtBufsize : Nat) : Int) = ((32 : Nat) : Int) from rfl, hensure]
    exact if_pos (by simp only [Strbuf.length] at hroom ⊢; omega)
  · simp only [Strbuf.length, List.length_append] at hroom ⊢
    omega

theorem appends_jsonAppendNumber (hnums : nums.Lawful) (n : δ) :
    Appends (fun json => jsonAppendNumber cfg nums json n) (numberText cfg nums n) := by
  cases hkind : nums.kind n with
  | finite =>
    have htext : numberText cfg nums n = .ok (nums.gFmt cfg.encodeNumberPrecision n) := by
      rw [numberText, hkind]
    rw [htext]
    exact appends_gFmt hnums hkind
  | nan =>
    cases hinvalid : cfg.encodeInvalidNumbers with
    | off =>
      simp only [jsonAppendNumber, numberText, hkind, hinvalid]
      exact appends_fail _
    | on =>
      simp only [jsonAppendNumber, numberText, hkind, hinvalid]
      exact appends_appendMem _
    | null =>
      simp only [jsonAppendNumber, numberText, hkind, hinvalid]
      exact appends_appendMem _
  | infinite negative =>
    cases hinvalid : cfg.encodeInvalidNumbers with
    | off =>
      simp only [jsonAppendNumber, numberText, hkind, hinvalid]
      exact appends_fail _
    | on =>
      cases negative <;>
      · simp only [jsonAppendNumber, numberText, hkind, hinvalid]
        exact appends_appendMem _
    | null =>
      simp only [jsonAppendNumber, numberText, hkind, hinvalid]
      exact appends_appendMem _

theorem Out.seq_ok (a b : List UInt8) : (Out.ok a).seq (.ok b) = .ok (a ++ b) := rfl

theorem appends_jsonAppendKey (hnums : nums.Lawful) (key : Value δ) :
    Appends (jsonAppendKey cfg nums key) (keyText cfg nums key) := by
  cases key with
  | number n => exact (appends_appendChar 34).bind ((appends_jsonAppendNumber hnums n).bind (appends_appendMem [34, 58]))
  | string s =>
    rw [keyText, ← Out.seq_ok]
    exact (appends_jsonAppendString s).bind (appends_appendChar 58)
  | _ => exact appends_fail _

theorem appends_appendParts {ι : Type} {f : ι → Strbuf → Encoding} {out : ι → Out} {items : List ι}
    (h : ∀ i ∈ items, Appends (f i) (out i)) (comma : Bool) :
    Appends (appendParts comma (items.map f)) (.separated comma (items.map out)) := by
  induction items generalizing comma with
  | nil => exact appends_nothing
  | cons i items ih =>
    have hrest := ih (fun j hj => h j (List.mem_cons_of_mem _ hj)) true
    have hparts := (h i List.mem_cons_self).bind hrest
    cases comma with
    | true => exact (appends_appendChar 44).bind hparts
    | false => exact appends_nothing.bind hparts

theorem appends_jsonAppendArray {appendData : Value δ → Strbuf → Encoding} {out : Value δ → Out}
    (h : ∀ value, Appends (appendData value) (out value)) (pairs : List (Value δ × Value δ)) (n : Nat) :
    Appends (jsonAppendArray nums appendData pairs n) ((Out.ok [91]).seq
      ((Out.separated false ((List.range' 1 n).map fun i => out (luaRawgeti nums pairs i))).seq (.ok [93]))) := by
  have hparts := appends_appendParts (fun i (_ : i ∈ List.range' 1 n) => h (luaRawgeti nums pairs i)) false
  exact (appends_appendChar 91).bind (hparts.bind (appends_appendChar 93))

theorem appends_jsonAppendObject (hnums : nums.Lawful) {appendData : Value δ → Strbuf → Encoding} {out : Value δ → Out}
    (h : ∀ value, Appends (appendData value) (out value)) (pairs : List (Value δ × Value δ)) :
    Appends (jsonAppendObject cfg nums appendData pairs) ((Out.ok [123]).seq
      ((Out.separated false (pairs.map fun pair => (keyText cfg nums pair.1).seq (out pair.2))).seq (.ok [125]))) := by
  have hmember : ∀ pair ∈ pairs, Appends (fun json => jsonAppendKey cfg nums pair.1 json >>= appendData pair.2)
      ((keyText cfg nums pair.1).seq (out pair.2)) :=
    fun pair _ => (appends_jsonAppendKey hnums pair.1).bind (h pair.2)
  have hparts := appends_appendParts hmember false
  exact (appends_appendChar 123).bind (hparts.bind (appends_appendChar 125))

theorem appends_jsonAppendData_of_ne (hnums : nums.Lawful) (heap : Heap δ) (rounds depth : Nat) {value : Value δ}
    (hvalue : value.type ≠ .table) :
    Appends (jsonAppendData cfg nums heap rounds depth value) (value.text cfg nums heap rounds depth) := by
  cases rounds <;>
  · cases value with
    | table t => exact absurd rfl hvalue
    | string s => exact appends_jsonAppendString s
    | number n => exact appends_jsonAppendNumber hnums n
    | boolean b => cases b <;> exact appends_appendMem _
    | nil => exact appends_appendMem _
    | lightuserdata p =>
      cases p with
      | none => exact appends_appendMem _
      | some _ => exact appends_fail _
    | _ => exact appends_fail _

theorem appends_jsonAppendData (hnums : nums.Lawful) (heap : Heap δ) (rounds depth : Nat) (value : Value δ) :
    Appends (jsonAppendData cfg nums heap rounds depth value) (value.text cfg nums heap rounds depth) := by
  induction rounds generalizing depth value with
  | zero =>
    cases value with
    | table t => exact appends_fail _
    | _ => exact appends_jsonAppendData_of_ne hnums heap 0 depth (by simp [Value.type])
  | succ rounds ih =>
    cases value with
    | table t =>
      rw [Value.text]
      by_cases hdepth : depth + 1 ≤ cfg.encodeMaxDepth
      · have hnext := ih (depth + 1)
        rw [if_pos hdepth]
        rcases hlen : luaArrayLength cfg nums (heap t) with e | len
        · have hrun : jsonAppendData cfg nums heap (rounds + 1) depth (.table t) = fun json => .error (e, json) := by
            funext json
            exact (if_pos hdepth).trans (by rw [hlen])
          rw [hrun]
          exact appends_fail e
        · have hrun : jsonAppendData cfg nums heap (rounds + 1) depth (.table t) = fun json =>
              if len.getD 0 > 0 then
                jsonAppendArray nums (jsonAppendData cfg nums heap rounds (depth + 1)) (heap t) (len.getD 0) json
              else jsonAppendObject cfg nums (jsonAppendData cfg nums heap rounds (depth + 1)) (heap t) json := by
            funext json
            exact (if_pos hdepth).trans (by rw [hlen])
          rw [hrun]
          rcases len with - | - | n
          · exact appends_jsonAppendObject hnums hnext (heap t)
          · exact appends_jsonAppendObject hnums hnext (heap t)
          · exact appends_jsonAppendArray hnext (heap t) (n + 1)
      · have hrun : jsonAppendData cfg nums heap (rounds + 1) depth (.table t) =
            fun json => .error (.nesting (depth + 1), json) := by
          funext json
          exact if_neg hdepth
        rw [hrun, if_neg hdepth]
        exact appends_fail _
    | _ => exact appends_jsonAppendData_of_ne hnums heap (rounds + 1) depth (by simp [Value.type])

/-! ### Calls -/

/-- What a call returns. -/
def Out.answer (out : Out) : Except EncodeError (List UInt8) :=
  match out.error with
  | none => .ok out.bytes
  | some e => .error e

/-- The text of a value that is not in another. -/
def Value.encoded (cfg : Config) (nums : Numbers δ) (heap : Heap δ) (value : Value δ) : Out :=
  value.text cfg nums heap (cfg.encodeMaxDepth + 1) 0

theorem jsonEncode_eq (hnums : nums.Lawful) {heap : Heap δ} {value : Value δ} {kept : Strbuf} (hkept : kept.Sound)
    (hfits : 6 * (value.encoded cfg nums heap).bytes.length + 32 < Strbuf.limit) :
    ∃ kept', jsonEncode cfg nums heap kept value = ((value.encoded cfg nums heap).answer, kept') ∧ kept'.Sound := by
  have happends : ∀ json : Strbuf, json.Sound → json.bytes = [] → ∃ json', json'.Sound ∧
      json'.bytes = (value.encoded cfg nums heap).bytes ∧
      jsonAppendData cfg nums heap (cfg.encodeMaxDepth + 1) 0 value json = match (value.encoded cfg nums heap).error with
        | none => .ok json'
        | some e => .error (e, json') := by
    intro json hsound hempty
    have hlength : json.length = 0 := by rw [Strbuf.length, hempty]; rfl
    obtain ⟨json', hext, hrun⟩ := appends_jsonAppendData hnums heap (cfg.encodeMaxDepth + 1) 0 value json hsound (by
      unfold Fits
      rw [hlength, Nat.zero_add]
      exact hfits)
    exact ⟨json', hext.sound, by rw [hext.bytes_eq, hempty]; rfl, hrun⟩
  have hstart : ∃ json, (if cfg.encodeKeepBuffer then some kept.reset else Strbuf.init 0) = some json ∧ json.Sound ∧
      json.bytes = [] := by
    split
    · exact ⟨_, rfl, ⟨Nat.zero_lt_of_lt hkept.room, hkept.int⟩, rfl⟩
    · exact ⟨⟨Strbuf.defaultSize, []⟩, rfl, ⟨by decide, by decide⟩, rfl⟩
  obtain ⟨json, hjson, hsound, hempty⟩ := hstart
  obtain ⟨json', hsound', hbytes, hrun⟩ := happends json hsound hempty
  refine ⟨if cfg.encodeKeepBuffer then json' else kept, ?_, ?_⟩
  · rw [jsonEncode]
    simp only [hjson, hrun, Out.answer]
    cases (value.encoded cfg nums heap).error with
    | none => simp only [hbytes]
    | some e => rfl
  · split
    · exact hsound'
    · exact hkept

/-- No key that counts as an index is too large for an `int`. -/
def IndicesFit (nums : Numbers δ) (pairs : List (Value δ × Value δ)) : Prop :=
  ∀ pair ∈ pairs, ∀ k, pair.1 = .number k → isIndex nums k = true →
    nums.kind k = .finite ∧ ∃ i ≤ (intMax : Int), nums.toInteger k = some i

theorem scanIndices_ne_none {pairs : List (Value δ × Value δ)} (h : IndicesFit nums pairs) (max items : Nat) :
    scanIndices nums pairs max items ≠ none := by
  induction pairs generalizing max items with
  | nil => simp [scanIndices]
  | cons pair pairs ih =>
    obtain ⟨key, value⟩ := pair
    have hrest : IndicesFit nums pairs := fun pair hpair => h pair (List.mem_cons_of_mem _ hpair)
    cases key with
    | number k =>
      by_cases hindex : isIndex nums k = true
      · obtain ⟨hkind, i, hi, hk⟩ := h (.number k, value) List.mem_cons_self k rfl hindex
        have hlarger : ∃ max', largerIndex nums max k = some max' := by
          by_cases hle : i ≤ max
          · exact ⟨max, by simp [largerIndex, hkind, hk, hle]⟩
          · exact ⟨i.toNat, by simp [largerIndex, hkind, hk, hle, hi]⟩
        obtain ⟨max', hmax'⟩ := hlarger
        simp only [scanIndices, hindex, if_true, hmax', Option.bind_eq_bind, Option.bind_some]
        exact ih hrest max' (items + 1)
      · simp [scanIndices, hindex]
    | _ => simp [scanIndices]

theorem indicesFit_digits (pairs : List (Value (Fin 10) × Value (Fin 10))) : IndicesFit digits pairs := by
  intro pair _ k _ _
  refine ⟨rfl, k.val, ?_, rfl⟩
  unfold intMax
  omega

theorem Out.error_seq_ne {a b : Out} {e : EncodeError} (ha : a.error ≠ some e) (hb : b.error ≠ some e) :
    (a.seq b).error ≠ some e := by
  unfold Out.seq
  split
  · exact hb
  · exact ha

theorem Out.error_separated_ne {parts : List Out} {e : EncodeError} (h : ∀ part ∈ parts, part.error ≠ some e)
    (comma : Bool) : (Out.separated comma parts).error ≠ some e := by
  induction parts generalizing comma with
  | nil => simp [Out.separated, Out.ok]
  | cons part parts ih =>
    refine Out.error_seq_ne (by simp [Out.ok]) (Out.error_seq_ne (h part List.mem_cons_self) ?_)
    exact ih (fun other hother => h other (List.mem_cons_of_mem _ hother)) true

theorem numberText_ne_fault (n : δ) : (numberText cfg nums n).error ≠ some .fault := by
  unfold numberText
  split <;> simp [Out.ok, Out.fail]

theorem keyText_ne_fault (key : Value δ) : (keyText cfg nums key).error ≠ some .fault := by
  cases key with
  | number n =>
    exact Out.error_seq_ne (by simp [Out.ok]) (Out.error_seq_ne (numberText_ne_fault n) (by simp [Out.ok]))
  | _ => simp [keyText, Out.ok, Out.fail]

theorem luaArrayLength_ne_fault {pairs : List (Value δ × Value δ)} (h : IndicesFit nums pairs) :
    luaArrayLength cfg nums pairs ≠ .error .fault := by
  have hscan := scanIndices_ne_none h 0 0
  unfold luaArrayLength
  split
  · contradiction
  · simp
  · split_ifs <;> simp

theorem text_ne_fault_of_ne {heap : Heap δ} (rounds depth : Nat) {value : Value δ} (hvalue : value.type ≠ .table) :
    (value.text cfg nums heap rounds depth).error ≠ some .fault := by
  cases rounds <;>
  · cases value with
    | table t => exact absurd rfl hvalue
    | number n => exact numberText_ne_fault n
    | boolean b => cases b <;> simp [Value.text, Out.ok]
    | lightuserdata p => cases p <;> simp [Value.text, Out.ok, Out.fail]
    | _ => simp [Value.text, Out.ok, Out.fail]

/-- The rounds do not run out, since the depth is checked first. -/
theorem text_ne_fault {heap : Heap δ} (hheap : ∀ t, IndicesFit nums (heap t)) {rounds depth : Nat}
    (hrounds : cfg.encodeMaxDepth < rounds + depth) (hdepth : depth ≤ cfg.encodeMaxDepth) (value : Value δ) :
    (value.text cfg nums heap rounds depth).error ≠ some .fault := by
  induction rounds generalizing depth value with
  | zero => omega
  | succ rounds ih =>
    cases value with
    | table t =>
      rw [Value.text]
      by_cases hmore : depth + 1 ≤ cfg.encodeMaxDepth
      · have hnext := @ih (depth + 1) (by omega) hmore
        have harray := @luaArrayLength_ne_fault δ cfg nums _ (hheap t)
        rw [if_pos hmore]
        rcases hlen : luaArrayLength cfg nums (heap t) with e | len
        · exact fun h => harray (hlen.trans (by rw [Option.some.inj h]))
        · have hmembers : ∀ part ∈ (heap t).map fun pair =>
              (keyText cfg nums pair.1).seq (pair.2.text cfg nums heap rounds (depth + 1)), part.error ≠ some .fault := by
            intro part hpart
            obtain ⟨pair, -, rfl⟩ := List.mem_map.mp hpart
            exact Out.error_seq_ne (keyText_ne_fault pair.1) (hnext pair.2)
          have hobject := Out.error_seq_ne (a := .ok [123]) (e := .fault) (by simp [Out.ok])
            (Out.error_seq_ne (b := .ok [125]) (Out.error_separated_ne hmembers false) (by simp [Out.ok]))
          rcases len with - | - | n
          · exact hobject
          · exact hobject
          · refine Out.error_seq_ne (by simp [Out.ok]) (Out.error_seq_ne (Out.error_separated_ne ?_ false) (by simp [Out.ok]))
            intro part hpart
            obtain ⟨i, -, rfl⟩ := List.mem_map.mp hpart
            exact hnext _
      · rw [if_neg hmore]
        simp [Out.fail]
    | _ => exact text_ne_fault_of_ne (rounds + 1) depth (by simp [Value.type])

/-- One call of `encode`, on the buffer that the calls before it have left. -/
def encodeCall (cfg : Config) (nums : Numbers δ) (kept : Strbuf) (call : Heap δ × Value δ) :
    Option (Except EncodeError (List UInt8) × Strbuf) :=
  some (jsonEncode cfg nums call.1 kept call.2)

theorem simulates_encodeCall (hnums : nums.Lawful) :
    Lib.Simulates (encodeCall cfg nums) (fun (_ : Unit) call => ((call.2.encoded cfg nums call.1).answer, ()))
      (fun _ call => 6 * (call.2.encoded cfg nums call.1).bytes.length + 32 < Strbuf.limit) (fun kept _ => kept.Sound) := by
  intro kept _ call hkept hfits
  obtain ⟨kept', hrun, hkept'⟩ := @jsonEncode_eq δ cfg nums hnums call.1 call.2 kept hkept hfits
  exact ⟨kept', by rw [encodeCall, hrun], hkept'⟩

/-- **The buffer does not show.** In every run of calls of `encode`, those that fail among them, each call returns the text of its
value, or the error that stops it, and nothing that the calls before it have written; and no call writes outside of the
buffer. -/
theorem trace_encodeCall_eq (hnums : nums.Lawful) (calls : List (Heap δ × Value δ))
    (hfits : ∀ call ∈ calls, 6 * (call.2.encoded cfg nums call.1).bytes.length + 32 < Strbuf.limit)
    (hheap : ∀ call ∈ calls, ∀ t, IndicesFit nums (call.1 t)) :
    ∃ kept, Lib.trace (encodeCall cfg nums) ⟨Strbuf.defaultSize, []⟩ calls =
        some (calls.map fun call => (call.2.encoded cfg nums call.1).answer, kept) ∧
      ∀ call ∈ calls, (call.2.encoded cfg nums call.1).answer ≠ .error .fault := by
  have hstart : (⟨Strbuf.defaultSize, []⟩ : Strbuf).Sound := ⟨by decide, by decide⟩
  obtain ⟨kept, htrace, -⟩ := (simulates_encodeCall hnums).trace_eq hstart (Lib.allowed_unit hfits)
  rw [Lib.answers_unit] at htrace
  refine ⟨kept, htrace, fun call hcall => ?_⟩
  have hfault := text_ne_fault (hheap call hcall) (Nat.lt_succ_self cfg.encodeMaxDepth) (Nat.zero_le _) call.2
  unfold Out.answer
  split
  · simp
  next e he =>
    intro h
    cases h
    exact hfault he

end

/-- The first call fails inside of a table that contains itself, with two brackets in the buffer. -/
theorem trace_encodeCall_eq_cyclic :
    let cfg := { Config.packer with encodeMaxDepth := 2 }
    let heap : Heap (Fin 10) := fun t => if t = 0 then [(.number 1, .table 0)] else [(.number 1, .number 7)]
    ∃ kept, Lib.trace (encodeCall cfg digits) ⟨Strbuf.defaultSize, []⟩ [(heap, .table 0), (heap, .table 1)] =
      some ([.error (.nesting 3), .ok [91, 55, 93]], kept) := by
  intro cfg heap
  have hfits : ∀ call ∈ [(heap, Value.table 0), (heap, .table 1)],
      6 * (call.2.encoded cfg digits call.1).bytes.length + 32 < Strbuf.limit := by
    simp only [List.forall_mem_cons, List.not_mem_nil, false_imp_iff, implies_true, and_true]
    exact ⟨by decide, by decide⟩
  obtain ⟨kept, htrace, -⟩ := @trace_encodeCall_eq (Fin 10) cfg digits lawful_digits _ hfits
    fun call _ t => indicesFit_digits (call.1 t)
  exact ⟨kept, htrace⟩

end SkynetServer.Cjson
