import SkynetServer.Cjson.RoundTrip

/-!
# Plain data

Records, with strings as their keys, and arrays, with the indices from 1 on, of numbers that are printed in full, strings,
booleans and `null`, nested as deeply as the configuration allows. This is what `db/packer.lua` can store: `unpack` makes the
same of it.
-/

namespace SkynetServer.Cjson

variable {δ : Type}

/-- The index that a key is. -/
def keyIndex (nums : Numbers δ) : Value δ → Option Nat
  | .number k =>
    match nums.kind k, nums.toInteger k with
    | .finite, some i => if 1 ≤ i then some i.toNat else none
    | _, _ => none
  | _ => none

def IsRecord (pairs : List (Value δ × Value δ)) : Prop :=
  (∀ pair ∈ pairs, ∃ s, pair.1 = .string s) ∧ (pairs.map Prod.fst).Nodup

/-- The indices are 1, 2 and so on, in any order. -/
def IsArray (nums : Numbers δ) (pairs : List (Value δ × Value δ)) : Prop :=
  pairs.length ≤ intMax ∧
    (pairs.map fun pair => keyIndex nums pair.1).Perm ((List.range' 1 pairs.length).map some)

/-- Plain data, nested so deep. -/
def Plain (cfg : Config) (nums : Numbers δ) (heap : Heap δ) : Nat → Value δ → Prop
  | _, .string _ => True
  | _, .number n => nums.kind n = .finite ∧ reread cfg nums n = n
  | _, .boolean _ => True
  | _, .lightuserdata none => True
  | n + 1, .table t => (IsRecord (heap t) ∨ IsArray nums (heap t)) ∧ ∀ pair ∈ heap t, Plain cfg nums heap n pair.2
  | _, _ => False

def SameKey (nums : Numbers δ) (key : Value δ) : Key → Prop
  | .string s => key = .string s
  | .index i => keyIndex nums key = some i

/-- The value and the tree have the same keys, and the same under each of them. -/
def Same (nums : Numbers δ) (heap : Heap δ) : Nat → Value δ → Tree δ → Prop
  | _, .string s, tree => tree = .string s
  | _, .number n, tree => tree = .number n
  | _, .boolean b, tree => tree = .boolean b
  | _, .lightuserdata none, tree => tree = .null
  | n + 1, .table t, .table pairs =>
    (pairs.map Prod.fst).Nodup ∧
      (∀ pair ∈ heap t, ∃ found ∈ pairs, SameKey nums pair.1 found.1 ∧ Same nums heap n pair.2 found.2) ∧
      ∀ found ∈ pairs, ∃ pair ∈ heap t, SameKey nums pair.1 found.1 ∧ Same nums heap n pair.2 found.2
  | _, _, _ => False

variable {cfg : Config} {nums : Numbers δ}

/-! ### Records -/

theorem luaArrayLength_of_isRecord {pairs : List (Value δ × Value δ)} (h : IsRecord pairs) :
    luaArrayLength cfg nums pairs = .ok none ∨ luaArrayLength cfg nums pairs = .ok (some 0) := by
  cases pairs with
  | nil => exact .inr (if_neg fun hsparse => by omega)
  | cons pair pairs =>
    obtain ⟨s, hs⟩ := h.1 pair List.mem_cons_self
    obtain ⟨key, value⟩ := pair
    obtain rfl : key = .string s := hs
    exact .inl rfl

theorem luaRawset_of_notMem {pairs : List (Key × Tree δ)} {key : Key} (h : key ∉ pairs.map Prod.fst) (tree : Tree δ) :
    luaRawset pairs key tree = pairs ++ [(key, tree)] := by
  rw [luaRawset, if_neg]
  rw [List.any_eq_true]
  rintro ⟨pair, hpair, heq⟩
  exact h (List.mem_map.mpr ⟨pair, hpair, of_decide_eq_true heq⟩)

theorem setAll_of_nodup {members : List (List UInt8 × Tree δ)} {pairs : List (Key × Tree δ)}
    (h : (pairs.map Prod.fst ++ members.map fun member => Key.string member.1).Nodup) :
    setAll pairs members = pairs ++ members.map fun member => (.string member.1, member.2) := by
  induction members generalizing pairs with
  | nil => simp [setAll]
  | cons member members ih =>
    obtain ⟨key, tree⟩ := member
    have hnew : Key.string key ∉ pairs.map Prod.fst := by
      intro hmem
      exact (List.nodup_append.mp h).2.2 _ hmem _ List.mem_cons_self rfl
    rw [setAll, luaRawset_of_notMem hnew, ih (by simpa using h)]
    simp

theorem Out.error_seq_eq_none {a b : Out} (ha : a.error = none) (hb : b.error = none) : (a.seq b).error = none := by
  simpa only [Out.seq, ha] using hb

theorem Out.error_separated_eq_none {parts : List Out} (h : ∀ part ∈ parts, part.error = none) (comma : Bool) :
    (Out.separated comma parts).error = none := by
  induction parts generalizing comma with
  | nil => rfl
  | cons part parts ih =>
    refine Out.error_seq_eq_none rfl (Out.error_seq_eq_none (h part List.mem_cons_self) ?_)
    exact ih (fun other hother => h other (List.mem_cons_of_mem _ hother)) true

theorem same_record {pairs : List (Value δ × Value δ)} {image : Value δ → Tree δ} {same : Value δ → Tree δ → Prop}
    (h : IsRecord pairs) (hsame : ∀ pair ∈ pairs, same pair.2 (image pair.2)) :
    let found := setAll [] (pairs.map fun pair => (keyString cfg nums pair.1, image pair.2))
    (found.map Prod.fst).Nodup ∧
      (∀ pair ∈ pairs, ∃ f ∈ found, SameKey nums pair.1 f.1 ∧ same pair.2 f.2) ∧
      ∀ f ∈ found, ∃ pair ∈ pairs, SameKey nums pair.1 f.1 ∧ same pair.2 f.2 := by
  have hkey : ∀ pair ∈ pairs, pair.1 = .string (keyString cfg nums pair.1) := by
    intro pair hpair
    obtain ⟨s, hs⟩ := h.1 pair hpair
    rw [hs]
    rfl
  have hstrings : (pairs.map fun pair => keyString cfg nums pair.1).Nodup := by
    have hmap : pairs.map Prod.fst = (pairs.map fun pair => keyString cfg nums pair.1).map Value.string := by
      rw [List.map_map]
      exact List.map_congr_left hkey
    exact List.Nodup.of_map Value.string (hmap ▸ h.2)
  have hnodup : (pairs.map fun pair => Key.string (keyString cfg nums pair.1)).Nodup := by
    have hmap := hstrings.map fun (s s' : List UInt8) (heq : Key.string s = .string s') => Key.string.inj heq
    rwa [List.map_map] at hmap
  intro found
  have hfound : found = pairs.map fun pair => (.string (keyString cfg nums pair.1), image pair.2) := by
    show setAll [] _ = _
    rw [setAll_of_nodup (by simpa [List.map_map, Function.comp_def] using hnodup)]
    simp [Function.comp_def]
  rw [hfound]
  refine ⟨by simpa [List.map_map, Function.comp_def] using hnodup, fun pair hpair => ?_, fun f hf => ?_⟩
  · exact ⟨_, List.mem_map.mpr ⟨pair, hpair, rfl⟩, hkey pair hpair, hsame pair hpair⟩
  · obtain ⟨pair, hpair, rfl⟩ := List.mem_map.mp hf
    exact ⟨pair, hpair, hkey pair hpair, hsame pair hpair⟩

/-! ### Arrays -/

theorem keyIndex_eq_some {key : Value δ} {i : Nat} (h : keyIndex nums key = some i) :
    ∃ k, key = .number k ∧ nums.kind k = .finite ∧ nums.toInteger k = some (i : Int) ∧ 1 ≤ i := by
  cases key with
  | number k =>
    refine ⟨k, rfl, ?_⟩
    simp only [keyIndex] at h
    split at h
    next i' hkind hk =>
      split_ifs at h with hpos
      cases h
      exact ⟨hkind, by rw [hk]; congr 1; omega, by omega⟩
    next => cases h
  | _ => cases h

theorem scanIndices_spec {pairs : List (Value δ × Value δ)} {n : Nat} (hn : n ≤ intMax)
    (h : ∀ pair ∈ pairs, ∃ i ≤ n, keyIndex nums pair.1 = some i) {largest items : Nat} (hlargest : largest ≤ n) :
    ∃ largest', scanIndices nums pairs largest items = some (some (largest', items + pairs.length)) ∧ largest ≤ largest' ∧
      largest' ≤ n ∧ ∀ pair ∈ pairs, ∀ i, keyIndex nums pair.1 = some i → i ≤ largest' := by
  induction pairs generalizing largest items with
  | nil => exact ⟨largest, rfl, Nat.le_refl _, hlargest, by simp⟩
  | cons pair pairs ih =>
    obtain ⟨key, value⟩ := pair
    obtain ⟨i, hi, hkey⟩ := h (key, value) List.mem_cons_self
    obtain ⟨k, rfl, hkind, hk, hpos⟩ := keyIndex_eq_some hkey
    have hindex : isIndex nums k = true := by
      simp only [isIndex, hkind, hk]
      exact decide_eq_true (by omega)
    have hlarger : largerIndex nums largest k = some (max largest i) := by
      simp only [largerIndex, hkind, hk]
      split_ifs with h₁ h₂
      · rw [Nat.max_eq_left (by omega)]
      · rw [Nat.max_eq_right (by omega)]
        rfl
      · omega
    obtain ⟨largest', hscan, hle, hn', hall⟩ := @ih (fun other hother => h other (List.mem_cons_of_mem _ hother))
      (max largest i) (items + 1) (Nat.max_le.mpr ⟨hlargest, hi⟩)
    refine ⟨largest', ?_, (Nat.le_max_left _ _).trans hle, hn', fun other hother j hj => ?_⟩
    · simp only [scanIndices, hindex, if_true, hlarger, Option.bind_eq_bind, Option.bind_some, hscan, List.length_cons]
      congr 3
      omega
    · rcases List.mem_cons.mp hother with rfl | hother
      · obtain rfl : i = j := Option.some.inj (hkey.symm.trans hj)
        exact (Nat.le_max_right _ _).trans hle
      · exact hall other hother j hj

theorem IsArray.keyIndex_of_mem {pairs : List (Value δ × Value δ)} (h : IsArray nums pairs) {pair : Value δ × Value δ}
    (hpair : pair ∈ pairs) : ∃ i, 1 ≤ i ∧ i ≤ pairs.length ∧ keyIndex nums pair.1 = some i := by
  have hmem := h.2.subset (List.mem_map.mpr ⟨pair, hpair, rfl⟩)
  obtain ⟨i, hi, heq⟩ := List.mem_map.mp hmem
  rw [List.mem_range'_1] at hi
  exact ⟨i, hi.1, by omega, heq.symm⟩

theorem IsArray.exists_keyIndex {pairs : List (Value δ × Value δ)} (h : IsArray nums pairs) {i : Nat} (hpos : 1 ≤ i)
    (hi : i ≤ pairs.length) : ∃ pair ∈ pairs, keyIndex nums pair.1 = some i := by
  have hmem : some i ∈ (List.range' 1 pairs.length).map some :=
    List.mem_map.mpr ⟨i, by rw [List.mem_range'_1]; omega, rfl⟩
  obtain ⟨pair, hpair, heq⟩ := List.mem_map.mp (h.2.symm.subset hmem)
  exact ⟨pair, hpair, heq⟩

theorem luaArrayLength_of_isArray {pairs : List (Value δ × Value δ)} (h : IsArray nums pairs) :
    luaArrayLength cfg nums pairs = .ok (some pairs.length) := by
  obtain ⟨largest, hscan, -, hle, hall⟩ := @scanIndices_spec δ nums pairs pairs.length h.1
    (fun pair hpair => (h.keyIndex_of_mem hpair).imp fun i hi => hi.2) 0 0 (Nat.zero_le _)
  have hlargest : largest = pairs.length := by
    rcases Nat.eq_zero_or_pos pairs.length with hzero | hpos
    · omega
    · obtain ⟨pair, hpair, hkey⟩ := h.exists_keyIndex hpos (Nat.le_refl _)
      exact Nat.le_antisymm hle (hall pair hpair _ hkey)
  rw [Nat.zero_add] at hscan
  rw [luaArrayLength, hscan, hlargest]
  refine if_neg fun hsparse => ?_
  have hmul : pairs.length ≤ pairs.length * cfg.encodeSparseRatio := Nat.le_mul_of_pos_right _ hsparse.1
  omega

theorem IsArray.nodup {pairs : List (Value δ × Value δ)} (h : IsArray nums pairs) :
    (pairs.map fun pair => keyIndex nums pair.1).Nodup := by
  refine h.2.symm.nodup ?_
  exact List.Nodup.map (Option.some_injective Nat) List.nodup_range'

theorem luaRawgeti_of_isArray {pairs : List (Value δ × Value δ)} (h : IsArray nums pairs) {pair : Value δ × Value δ}
    (hpair : pair ∈ pairs) {i : Nat} (hi : keyIndex nums pair.1 = some i) : luaRawgeti nums pairs i = pair.2 := by
  unfold luaRawgeti
  split
  next pair' hfind =>
    have hmem := List.mem_of_find?_eq_some hfind
    have htest := List.find?_some hfind
    obtain ⟨j, -, -, hj⟩ := h.keyIndex_of_mem hmem
    obtain ⟨k, hkey, -, hk, -⟩ := keyIndex_eq_some hj
    simp only [hkey, hk, beq_iff_eq, Option.some.injEq, Nat.cast_inj] at htest
    rw [List.inj_on_of_nodup_map h.nodup hmem hpair (by rw [hi, hj, htest])]
  next hnone =>
    have htest := List.find?_eq_none.mp hnone pair hpair
    obtain ⟨k, hkey, -, hk, -⟩ := keyIndex_eq_some hi
    simp [hkey, hk] at htest

theorem map_fst_indexed (i : Nat) (trees : List (Tree δ)) :
    (indexed i trees).map Prod.fst = (List.range' i trees.length).map Key.index := by
  induction trees generalizing i with
  | nil => rfl
  | cons tree trees ih =>
    rw [indexed, List.map_cons, ih (i + 1)]
    rfl

theorem mem_indexed {f : Nat → Tree δ} {i n : Nat} {found : Key × Tree δ} :
    found ∈ indexed i ((List.range' i n).map f) ↔ ∃ j, i ≤ j ∧ j < i + n ∧ found = (.index j, f j) := by
  induction n generalizing i with
  | zero =>
    simp only [List.range'_zero, List.map_nil, indexed, List.not_mem_nil, false_iff, not_exists, not_and]
    omega
  | succ n ih =>
    rw [List.range'_succ, List.map_cons, indexed, List.mem_cons, ih]
    constructor
    · rintro (rfl | ⟨j, hj, hlt, rfl⟩)
      · exact ⟨i, Nat.le_refl _, by omega, rfl⟩
      · exact ⟨j, by omega, by omega, rfl⟩
    · rintro ⟨j, hj, hlt, rfl⟩
      rcases Nat.eq_or_lt_of_le hj with rfl | hlt'
      · exact .inl rfl
      · exact .inr ⟨j, hlt', by omega, rfl⟩

theorem same_array {pairs : List (Value δ × Value δ)} {image : Value δ → Tree δ} {same : Value δ → Tree δ → Prop}
    (h : IsArray nums pairs) (hsame : ∀ pair ∈ pairs, same pair.2 (image pair.2)) :
    let found := indexed 1 ((List.range' 1 pairs.length).map fun i => image (luaRawgeti nums pairs i))
    (found.map Prod.fst).Nodup ∧
      (∀ pair ∈ pairs, ∃ f ∈ found, SameKey nums pair.1 f.1 ∧ same pair.2 f.2) ∧
      ∀ f ∈ found, ∃ pair ∈ pairs, SameKey nums pair.1 f.1 ∧ same pair.2 f.2 := by
  intro found
  have hfound : ∀ pair ∈ pairs, ∀ i, keyIndex nums pair.1 = some i →
      same pair.2 (image (luaRawgeti nums pairs i)) := by
    intro pair hpair i hi
    rw [luaRawgeti_of_isArray h hpair hi]
    exact hsame pair hpair
  refine ⟨?_, fun pair hpair => ?_, fun f hf => ?_⟩
  · rw [map_fst_indexed]
    exact List.Nodup.map (fun i j heq => Key.index.inj heq) List.nodup_range'
  · obtain ⟨i, hpos, hle, hi⟩ := h.keyIndex_of_mem hpair
    exact ⟨_, mem_indexed.mpr ⟨i, hpos, by omega, rfl⟩, hi, hfound pair hpair i hi⟩
  · obtain ⟨i, hpos, hlt, rfl⟩ := mem_indexed.mp hf
    obtain ⟨pair, hpair, hi⟩ := h.exists_keyIndex hpos (by omega)
    exact ⟨pair, hpair, hi, hfound pair hpair i hi⟩

/-! ### The way back -/

/-- The value is written without an error, and comes back the same. -/
def Returns (cfg : Config) (nums : Numbers δ) (heap : Heap δ) (n rounds depth : Nat) (value : Value δ) : Prop :=
  (value.text cfg nums heap rounds depth).error = none ∧ Same nums heap n value (value.image cfg nums heap rounds)

theorem returns_of_ne {heap : Heap δ} {n : Nat} (rounds depth : Nat) {value : Value δ} (hvalue : value.type ≠ .table)
    (h : Plain cfg nums heap n value) : Returns cfg nums heap n rounds depth value := by
  cases rounds <;>
  · cases value with
    | table t => exact absurd rfl hvalue
    | string s => cases n <;> exact ⟨rfl, rfl⟩
    | number k =>
      obtain ⟨hkind, hreread⟩ : nums.kind k = .finite ∧ reread cfg nums k = k := by
        cases n <;> exact h
      have htree : numberImage cfg nums k = .number k := by
        simp only [numberImage, hkind, hreread]
      refine ⟨by simp [Value.text, numberText, hkind, Out.ok], ?_⟩
      cases n <;> exact htree
    | boolean b => cases n <;> cases b <;> exact ⟨rfl, rfl⟩
    | lightuserdata p =>
      cases p with
      | none => cases n <;> exact ⟨rfl, rfl⟩
      | some _ => cases n <;> exact h.elim
    | _ => cases n <;> exact h.elim

theorem returns_record {heap : Heap δ} {t n rounds depth : Nat} (hdepth : depth + 1 ≤ cfg.encodeMaxDepth)
    (h : IsRecord (heap t)) (hnext : ∀ pair ∈ heap t, Returns cfg nums heap n rounds (depth + 1) pair.2) :
    Returns cfg nums heap (n + 1) (rounds + 1) depth (.table t) := by
  have herror : ∀ part ∈ (heap t).map fun pair =>
      (keyText cfg nums pair.1).seq (pair.2.text cfg nums heap rounds (depth + 1)), part.error = none := by
    intro part hpart
    obtain ⟨pair, hpair, rfl⟩ := List.mem_map.mp hpart
    obtain ⟨s, hs⟩ := h.1 pair hpair
    exact Out.error_seq_eq_none (by rw [hs]; rfl) (hnext pair hpair).1
  have htext := Out.error_seq_eq_none (a := .ok [123]) rfl
    (Out.error_seq_eq_none (b := .ok [125]) (Out.error_separated_eq_none herror false) rfl)
  have hsame := @same_record δ cfg nums (heap t) (fun value => value.image cfg nums heap rounds)
    (Same nums heap n) h fun pair hpair => (hnext pair hpair).2
  unfold Returns
  rw [Value.text, Value.image, if_pos hdepth]
  rcases @luaArrayLength_of_isRecord δ cfg nums (heap t) h with hlen | hlen
  · rw [hlen]
    exact ⟨htext, hsame⟩
  · rw [hlen]
    exact ⟨htext, hsame⟩

theorem returns_array {heap : Heap δ} {t n rounds depth : Nat} (hdepth : depth + 1 ≤ cfg.encodeMaxDepth)
    (h : IsArray nums (heap t)) (hnext : ∀ pair ∈ heap t, Returns cfg nums heap n rounds (depth + 1) pair.2) :
    Returns cfg nums heap (n + 1) (rounds + 1) depth (.table t) := by
  have hlen := @luaArrayLength_of_isArray δ cfg nums (heap t) h
  have herror : ∀ part ∈ (List.range' 1 (heap t).length).map fun i =>
      (luaRawgeti nums (heap t) i).text cfg nums heap rounds (depth + 1), part.error = none := by
    intro part hpart
    obtain ⟨i, hi, rfl⟩ := List.mem_map.mp hpart
    rw [List.mem_range'_1] at hi
    obtain ⟨pair, hpair, hkey⟩ := h.exists_keyIndex hi.1 (by omega)
    rw [luaRawgeti_of_isArray h hpair hkey]
    exact (hnext pair hpair).1
  have htext := Out.error_seq_eq_none (a := .ok [91]) rfl
    (Out.error_seq_eq_none (b := .ok [93]) (Out.error_separated_eq_none herror false) rfl)
  have hsame := @same_array δ nums (heap t) (fun value => value.image cfg nums heap rounds)
    (Same nums heap n) h fun pair hpair => (hnext pair hpair).2
  cases hcount : (heap t).length with
  | zero =>
    have hempty := List.eq_nil_of_length_eq_zero hcount
    exact returns_record hdepth (by simp [IsRecord, hempty]) hnext
  | succ k =>
    unfold Returns
    rw [hcount] at hlen htext hsame
    rw [Value.text, Value.image, if_pos hdepth, hlen]
    exact ⟨htext, hsame⟩

theorem returns_of_plain {heap : Heap δ} {n rounds depth : Nat} {value : Value δ} (h : Plain cfg nums heap n value)
    (hdepth : depth + n ≤ cfg.encodeMaxDepth) (hrounds : n ≤ rounds) : Returns cfg nums heap n rounds depth value := by
  induction n generalizing rounds depth value with
  | zero =>
    refine returns_of_ne rounds depth ?_ h
    cases value with
    | table t => exact h.elim
    | _ => simp [Value.type]
  | succ n ih =>
    cases value with
    | table t =>
      obtain ⟨rounds, rfl⟩ := Nat.exists_eq_add_one.mpr (show 0 < rounds by omega)
      have hnext : ∀ pair ∈ heap t, Returns cfg nums heap n rounds (depth + 1) pair.2 :=
        fun pair hpair => ih (h.2 pair hpair) (by omega) (by omega)
      rcases h.1 with hrecord | harray
      · exact returns_record (by omega) hrecord hnext
      · exact returns_array (by omega) harray hnext
    | _ => exact returns_of_ne rounds depth (by simp [Value.type]) h

/-- **Plain data comes back the same.** Of a value of plain data `encode` makes a text, whatever the buffer that is kept, and
`decode` makes of this text a value with the same keys and the same under each of them. -/
theorem jsonDecode_of_plain (hnums : nums.Lawful) (hinvalid : cfg.encodeInvalidNumbers ≠ .on)
    (hdepth : cfg.encodeMaxDepth ≤ cfg.decodeMaxDepth) {heap : Heap δ} {value : Value δ}
    (hplain : Plain cfg nums heap cfg.encodeMaxDepth value) {kept : Strbuf} (hkept : kept.Sound)
    (hfits : 6 * (value.encoded cfg nums heap).bytes.length + 32 < Strbuf.limit) :
    ∃ text kept' tree, jsonEncode cfg nums heap kept value = (.ok text, kept') ∧
      jsonDecode cfg nums text = .ok tree ∧ Same nums heap cfg.encodeMaxDepth value tree := by
  obtain ⟨herror, hsame⟩ := @returns_of_plain δ cfg nums heap _ (cfg.encodeMaxDepth + 1) 0 value hplain (by omega) (by omega)
  obtain ⟨kept', hencode, -⟩ := jsonEncode_eq hnums hkept hfits
  have hlen : (value.encoded cfg nums heap).bytes.length < intMax := by
    unfold Strbuf.limit at hfits
    unfold intMax
    omega
  refine ⟨_, kept', _, ?_, decode_encoded hnums hinvalid hdepth herror hlen, hsame⟩
  rw [hencode, Out.answer]
  have herror' : (value.encoded cfg nums heap).error = none := herror
  rw [herror']

/-- A record with an array in it. -/
theorem jsonDecode_of_plain_record :
    let heap : Heap (Fin 10) := fun t =>
      if t = 0 then [(.string [97], .table 1)] else [(.number 2, .number 7), (.number 1, .boolean true)]
    ∃ text kept' tree, jsonEncode Config.packer digits heap ⟨Strbuf.defaultSize, []⟩ (.table 0) = (.ok text, kept') ∧
      jsonDecode Config.packer digits text = .ok tree ∧ Same digits heap 1000 (.table 0) tree := by
  intro heap
  have harray : IsRecord (heap 1) ∨ IsArray digits (heap 1) := .inr ⟨by decide, by decide⟩
  have hnumber : digits.kind 7 = .finite ∧ reread Config.packer digits 7 = 7 := by decide
  have hplain : Plain Config.packer digits heap 1000 (.table 0) := by
    refine ⟨.inl ?_, ?_⟩
    · simp [IsRecord, heap]
    · simpa [Plain, heap] using And.intro harray hnumber
  exact @jsonDecode_of_plain (Fin 10) Config.packer digits lawful_digits (by decide) (by decide) heap _ hplain
    ⟨Strbuf.defaultSize, []⟩ ⟨by decide, by decide⟩ (by decide)

end SkynetServer.Cjson
