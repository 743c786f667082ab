import Mathlib.Tactic.IntervalCases
import SkynetServer.Cjson.Decode

/-!
# The strings of a text

What stands between two quotes, as a relation between the text, the bytes it denotes and what follows. The escapes of code
points are those of UTF-16, and denote the UTF-8 of the code point. The loop of `json_next_string_token` finds the string if
there is one, and stays within the text and the temporary buffer in any case.
-/

namespace SkynetServer.Cjson

def IsHex (b : UInt8) (v : Nat) : Prop :=
  (48 ≤ b.toNat ∧ b.toNat ≤ 57 ∧ v = b.toNat - 48) ∨ (65 ≤ b.toNat ∧ b.toNat ≤ 70 ∧ v = b.toNat - 55) ∨
    (97 ≤ b.toNat ∧ b.toNat ≤ 102 ∧ v = b.toNat - 87)

inductive Hex4 : List UInt8 → Nat → Prop where
  | mk {a b c d : UInt8} {x y z w : Nat} (ha : IsHex a x) (hb : IsHex b y) (hc : IsHex c z) (hd : IsHex d w) :
    Hex4 [a, b, c, d] (x * 4096 + y * 256 + z * 16 + w)

/-- The escape of a code point, as one UTF-16 unit or two. -/
inductive Escape : List UInt8 → Char → Prop where
  | unit {h : List UInt8} {c : Char} (hh : Hex4 h c.toNat) : Escape (92 :: 117 :: h) c
  | pair {h l : List UInt8} {c : Char} (hc : 0x10000 ≤ c.toNat) (hh : Hex4 h (0xD800 + (c.toNat - 0x10000) / 0x400))
    (hl : Hex4 l (0xDC00 + (c.toNat - 0x10000) % 0x400)) : Escape (92 :: 117 :: h ++ 92 :: 117 :: l) c

/-- The escapes of one character. -/
def shortEscapes : List (UInt8 × UInt8) :=
  [(34, 34), (92, 92), (47, 47), (98, 8), (116, 9), (110, 10), (102, 12), (114, 13)]

/-- A text that continues a string, the bytes of the string and the text behind the closing quote. -/
inductive Body : List UInt8 → List UInt8 → List UInt8 → Prop where
  | close (rest : List UInt8) : Body (34 :: rest) [] rest
  | plain {b : UInt8} {text s rest : List UInt8} (hb : b ≠ 34 ∧ b ≠ 92 ∧ b ≠ 0) (h : Body text s rest) :
    Body (b :: text) (b :: s) rest
  | short {e c : UInt8} {text s rest : List UInt8} (hc : (e, c) ∈ shortEscapes) (h : Body text s rest) :
    Body (92 :: e :: text) (c :: s) rest
  | unicode {e : List UInt8} {c : Char} {text s rest : List UInt8} (he : Escape e c) (h : Body text s rest) :
    Body (e ++ text) (String.utf8EncodeChar c ++ s) rest

/-! ### Bits -/

theorem and_shifted (v m k : Nat) : v &&& (2 ^ m - 1) * 2 ^ k = v / 2 ^ k % 2 ^ m * 2 ^ k := by
  have hdiv : (v &&& (2 ^ m - 1) * 2 ^ k) / 2 ^ k = v / 2 ^ k % 2 ^ m := by
    rw [Nat.and_div_two_pow, Nat.mul_div_cancel _ (Nat.two_pow_pos k), Nat.and_two_pow_sub_one_eq_mod]
  have hmod : (v &&& (2 ^ m - 1) * 2 ^ k) % 2 ^ k = 0 := by
    rw [Nat.and_mod_two_pow, Nat.mul_mod_left, Nat.and_zero]
  rw [← hdiv]
  exact (Nat.div_mul_cancel (Nat.dvd_of_mod_eq_zero hmod)).symm

theorem and_f800 (v : Nat) : v &&& 0xF800 = v / 2048 % 32 * 2048 := and_shifted v 5 11

theorem and_fc00 (v : Nat) : v &&& 0xFC00 = v / 1024 % 64 * 1024 := and_shifted v 6 10

theorem and_400 (v : Nat) : v &&& 0x400 = v / 1024 % 2 * 1024 := and_shifted v 1 10

theorem and_3ff (v : Nat) : v &&& 0x3FF = v % 1024 := Nat.and_two_pow_sub_one_eq_mod v 10

theorem and_3f (v : Nat) : v &&& 0x3F = v % 64 := Nat.and_two_pow_sub_one_eq_mod v 6

theorem or_eq_add {a b i : Nat} (hb : b < 2 ^ i) : b ||| 2 ^ i * a = b + 2 ^ i * a := by
  rw [Nat.or_comm, ← Nat.two_pow_add_eq_or_of_lt hb, Nat.add_comm]

theorem toNat_lt (c : Char) : c.toNat < 0x110000 := by
  rcases c.valid with h | ⟨_, h⟩
  · exact Nat.lt_trans h (by decide)
  · exact h

theorem codepointToUtf8_toNat (c : Char) : codepointToUtf8 c.toNat = String.utf8EncodeChar c := by
  have hmax := toNat_lt c
  show _ = if c.toNat ≤ 0x7F then [c.toNat.toUInt8]
    else if c.toNat ≤ 0x7FF then [(c.toNat / 64 % 32 + 192).toUInt8, (c.toNat % 64 + 128).toUInt8]
    else if c.toNat ≤ 0xFFFF then
      [(c.toNat / 4096 % 16 + 224).toUInt8, (c.toNat / 64 % 64 + 128).toUInt8, (c.toNat % 64 + 128).toUInt8]
    else [(c.toNat / 262144 % 8 + 240).toUInt8, (c.toNat / 4096 % 64 + 128).toUInt8, (c.toNat / 64 % 64 + 128).toUInt8,
      (c.toNat % 64 + 128).toUInt8]
  generalize c.toNat = n at hmax ⊢
  have h80 : ∀ m, m % 64 ||| 0x80 = m % 64 + 128 := fun m => or_eq_add (a := 2) (i := 6) (Nat.mod_lt _ (by decide))
  unfold codepointToUtf8
  simp only [Nat.shiftRight_eq_div_pow, and_3f, h80, Nat.reducePow]
  by_cases h7f : n ≤ 0x7F
  · rw [if_pos h7f, if_pos h7f]
  rw [if_neg h7f, if_neg h7f]
  by_cases h7ff : n ≤ 0x7FF
  · have hc0 : n / 64 ||| 0xC0 = n / 64 % 32 + 192 := by
      rw [Nat.mod_eq_of_lt (by omega)]
      exact or_eq_add (a := 6) (i := 5) (by omega)
    rw [if_pos h7ff, if_pos h7ff, hc0]
  rw [if_neg h7ff, if_neg h7ff]
  by_cases hffff : n ≤ 0xFFFF
  · have he0 : n / 4096 ||| 0xE0 = n / 4096 % 16 + 224 := by
      rw [Nat.mod_eq_of_lt (by omega)]
      exact or_eq_add (a := 14) (i := 4) (by omega)
    rw [if_pos hffff, if_pos hffff, he0]
  · have hf0 : n / 262144 ||| 0xF0 = n / 262144 % 8 + 240 := by
      rw [Nat.mod_eq_of_lt (by omega)]
      exact or_eq_add (a := 30) (i := 3) (by omega)
    rw [if_neg hffff, if_neg hffff, if_pos (by omega), hf0]

theorem forall_byte {p : UInt8 → Prop} (h : ∀ n : Fin 256, p (UInt8.ofNat n)) (b : UInt8) : p b := by
  have hb := h ⟨b.toNat, b.toNat_lt⟩
  rwa [UInt8.ofNat_toNat] at hb

theorem hexdigit2int_eq : ∀ b : UInt8, hexdigit2int b =
    if 48 ≤ b.toNat ∧ b.toNat ≤ 57 then some (b.toNat - 48)
    else if 65 ≤ b.toNat ∧ b.toNat ≤ 70 then some (b.toNat - 55)
    else if 97 ≤ b.toNat ∧ b.toNat ≤ 102 then some (b.toNat - 87) else none :=
  forall_byte (by decide +kernel)

theorem hexdigit2int_eq_some_iff (b : UInt8) (v : Nat) : hexdigit2int b = some v ↔ IsHex b v := by
  rw [hexdigit2int_eq]
  unfold IsHex
  split_ifs <;> simp <;> omega

theorem IsHex.ne_zero {b : UInt8} {v : Nat} (h : IsHex b v) : b ≠ 0 := by
  rintro rfl
  unfold IsHex at h
  simp at h

theorem IsHex.lt {b : UInt8} {v : Nat} (h : IsHex b v) : v < 16 := by
  unfold IsHex at h
  omega

/-! ### Reading -/

@[simp] theorem read_cons_zero (b : UInt8) (p : List UInt8) : read (b :: p) 0 = .ok b := rfl

@[simp] theorem read_cons_succ (b : UInt8) (p : List UInt8) (i : Nat) : read (b :: p) (i + 1) = read p i := rfl

@[simp] theorem ok_bind {α β : Type} (a : α) (f : α → Decoding β) : ((.ok a : Decoding α) >>= f) = f a := rfl

@[simp] theorem pure_eq_ok {α : Type} (a : α) : (pure a : Decoding α) = .ok a := rfl

theorem decodeHex4_of_hex4 {h : List UInt8} {v : Nat} (hh : Hex4 h v) (rest : List UInt8) :
    decodeHex4 (h ++ rest) = .ok (some v) := by
  obtain ⟨ha, hb, hc, hd⟩ := hh
  rw [← hexdigit2int_eq_some_iff] at ha hb hc hd
  simp only [decodeHex4, List.cons_append, read_cons_zero, read_cons_succ, ok_bind, ha, hb, hc, hd, Nat.shiftLeft_eq]
  rfl

theorem exists_cons_of_mem {p : List UInt8} (hp : 0 ∈ p) : ∃ b rest, p = b :: rest ∧ (b ≠ 0 → 0 ∈ rest) := by
  cases p with
  | nil => exact absurd hp List.not_mem_nil
  | cons b rest =>
    refine ⟨b, rest, rfl, fun hb => ?_⟩
    rcases List.mem_cons.mp hp with h | h
    · exact absurd h.symm hb
    · exact h

theorem exists_hex_of_mem {p : List UInt8} (hp : 0 ∈ p) :
    ∃ b rest, p = b :: rest ∧ (hexdigit2int b = none ∨ ∃ v, hexdigit2int b = some v ∧ IsHex b v ∧ 0 ∈ rest) := by
  obtain ⟨b, rest, rfl, hrest⟩ := exists_cons_of_mem hp
  refine ⟨b, rest, rfl, ?_⟩
  cases hb : hexdigit2int b with
  | none => exact .inl rfl
  | some v =>
    have hhex := (hexdigit2int_eq_some_iff b v).mp hb
    exact .inr ⟨v, rfl, hhex, hrest hhex.ne_zero⟩

/-- Reading stops at the first byte that is not a digit, and so at a `NUL`. -/
theorem decodeHex4_spec {p : List UInt8} (hp : 0 ∈ p) :
    ∃ r, decodeHex4 p = .ok r ∧ ∀ v ∈ r, ∃ h rest, p = h ++ rest ∧ Hex4 h v ∧ 0 ∈ rest := by
  obtain ⟨a, p, rfl, ha | ⟨x, ha, hx, hp⟩⟩ := exists_hex_of_mem hp
  · exact ⟨none, by simp [decodeHex4, ha], by simp⟩
  obtain ⟨b, p, rfl, hb | ⟨y, hb, hy, hp⟩⟩ := exists_hex_of_mem hp
  · exact ⟨none, by simp [decodeHex4, ha, hb], by simp⟩
  obtain ⟨c, p, rfl, hc | ⟨z, hc, hz, hp⟩⟩ := exists_hex_of_mem hp
  · exact ⟨none, by simp [decodeHex4, ha, hb, hc], by simp⟩
  obtain ⟨d, p, rfl, hd | ⟨w, hd, hw, hp⟩⟩ := exists_hex_of_mem hp
  · exact ⟨none, by simp [decodeHex4, ha, hb, hc, hd], by simp⟩
  refine ⟨_, decodeHex4_of_hex4 (.mk hx hy hz hw) p, ?_⟩
  intro v hv
  obtain rfl := Option.mem_some_iff.mp hv
  exact ⟨[a, b, c, d], p, rfl, .mk hx hy hz hw, hp⟩

theorem Hex4.length_eq {h : List UInt8} {v : Nat} (hh : Hex4 h v) : h.length = 4 := by
  cases hh
  rfl

theorem Hex4.of_eq {h : List UInt8} {v w : Nat} (hh : Hex4 h v) (heq : v = w) : Hex4 h w := heq ▸ hh

theorem Hex4.lt {h : List UInt8} {v : Nat} (hh : Hex4 h v) : v < 0x10000 := by
  obtain ⟨ha, hb, hc, hd⟩ := hh
  have := ha.lt
  have := hb.lt
  have := hc.lt
  have := hd.lt
  omega

/-! ### Escapes -/

/-- A surrogate is not a code point. -/
theorem not_surrogate (c : Char) : ¬ c.toNat / 2048 % 32 * 2048 = 0xD800 ∨ 0x10000 ≤ c.toNat := by
  rcases c.valid with h | ⟨h, _⟩
  · left
    change c.toNat < 0xD800 at h
    omega
  · change 0xDFFF < c.toNat at h
    omega

theorem exists_toNat_eq {n : Nat} (h : n.isValidChar) : ∃ c : Char, c.toNat = n := ⟨.ofNatAux n h, rfl⟩

theorem surrogates_value (v w : Nat) :
    ((v &&& 0x3FF) <<< 10 ||| (w &&& 0x3FF)) + 0x10000 = v % 1024 * 1024 + w % 1024 + 0x10000 := by
  have hlt : w % 1024 < 2 ^ 10 := Nat.mod_lt w (Nat.two_pow_pos 10)
  rw [and_3ff, and_3ff, ← Nat.shiftLeft_add_eq_or_of_lt hlt, Nat.shiftLeft_eq]

theorem lowSurrogate_of_hex4 {l : List UInt8} {w : Nat} (hl : Hex4 l w) (hw : 0xDC00 ≤ w ∧ w < 0xE000)
    (rest : List UInt8) : lowSurrogate (92 :: 117 :: l ++ rest) = .ok (some w) := by
  have hlow : ¬ w &&& 0xFC00 ≠ 0xDC00 := by
    rw [and_fc00]
    omega
  simp only [lowSurrogate, List.cons_append, read_cons_zero, read_cons_succ, ok_bind, List.drop_succ_cons, List.drop_zero,
    decodeHex4_of_hex4 hl, if_neg hlow]
  rfl

theorem lowSurrogate_spec {p : List UInt8} (hp : 0 ∈ p) :
    ∃ r, lowSurrogate p = .ok r ∧ ∀ w ∈ r, ∃ l rest, p = 92 :: 117 :: l ++ rest ∧ Hex4 l w ∧
      (0xDC00 ≤ w ∧ w < 0xE000) ∧ 0 ∈ rest := by
  obtain ⟨b, p₁, rfl, hb⟩ := exists_cons_of_mem hp
  by_cases hslash : b = 92
  · subst hslash
    obtain ⟨b, p₂, rfl, hb'⟩ := exists_cons_of_mem (hb (by decide))
    by_cases hu : b = 117
    · subst hu
      obtain ⟨r, hrun, hr⟩ := decodeHex4_spec (hb' (by decide))
      cases r with
      | none => exact ⟨none, by simp [lowSurrogate, hrun], by simp⟩
      | some w =>
        by_cases hlow : w &&& 0xFC00 = 0xDC00
        · refine ⟨some w, by simp [lowSurrogate, hrun, hlow], ?_⟩
          intro w' hw'
          obtain rfl := Option.mem_some_iff.mp hw'
          obtain ⟨l, rest, rfl, hl, hrest⟩ := hr w rfl
          have hlt := hl.lt
          rw [and_fc00] at hlow
          exact ⟨l, rest, rfl, hl, by omega, hrest⟩
        · exact ⟨none, by simp [lowSurrogate, hrun, hlow], by simp⟩
    · exact ⟨none, by simp [lowSurrogate, hu], by simp⟩
  · exact ⟨none, by simp [lowSurrogate, hslash], by simp⟩

theorem unicodeEscape_of_hex4 {h : List UInt8} {v : Nat} (hh : Hex4 h v) (rest : List UInt8) :
    unicodeEscape (92 :: 117 :: h ++ rest) =
      if v &&& 0xF800 = 0xD800 then
        if v &&& 0x400 ≠ 0 then .ok none
        else do
          let some w ← lowSurrogate rest | return none
          return some (((v &&& 0x3FF) <<< 10 ||| (w &&& 0x3FF)) + 0x10000, 12)
      else .ok (some (v, 6)) := by
  have hdrop : List.drop 6 (92 :: 117 :: h ++ rest) = rest := by
    obtain ⟨_, _, _, _⟩ := hh
    rfl
  rw [unicodeEscape, show List.drop 2 (92 :: 117 :: h ++ rest) = h ++ rest from rfl, decodeHex4_of_hex4 hh, hdrop]
  rfl

theorem unicodeEscape_of_escape {e : List UInt8} {c : Char} (he : Escape e c) (rest : List UInt8) :
    unicodeEscape (e ++ rest) = .ok (some (c.toNat, e.length)) := by
  cases he with
  | unit hh =>
    have hlt := hh.lt
    have hsurrogate : ¬ c.toNat &&& 0xF800 = 0xD800 := by
      rw [and_f800]
      rcases not_surrogate c with h | h
      · exact h
      · omega
    rw [unicodeEscape_of_hex4 hh, if_neg hsurrogate, List.length_cons, List.length_cons, hh.length_eq]
  | @pair h l _ hc hh hl =>
    have hmax := toNat_lt c
    have hhigh : 0xD800 + (c.toNat - 0x10000) / 0x400 &&& 0xF800 = 0xD800 := by
      rw [and_f800]
      omega
    have hfirst : ¬ 0xD800 + (c.toNat - 0x10000) / 0x400 &&& 0x400 ≠ 0 := by
      rw [and_400]
      omega
    have hvalue : (0xD800 + (c.toNat - 0x10000) / 0x400) % 1024 * 1024 + (0xDC00 + (c.toNat - 0x10000) % 0x400) % 1024 +
        0x10000 = c.toNat := by omega
    have hlen : (92 :: 117 :: h ++ 92 :: 117 :: l).length = 12 := by
      simp [hh.length_eq, hl.length_eq]
    rw [List.append_assoc, unicodeEscape_of_hex4 hh, if_pos hhigh, if_neg hfirst, lowSurrogate_of_hex4 hl (by omega),
      ok_bind]
    simp only [surrogates_value, hvalue, hlen]
    rfl

theorem unicodeEscape_spec {p : List UInt8} (hp : 0 ∈ p) :
    ∃ r, unicodeEscape (92 :: 117 :: p) = .ok r ∧ ∀ found ∈ r, ∃ e c rest, 92 :: 117 :: p = e ++ rest ∧ Escape e c ∧
      found = (c.toNat, e.length) ∧ 0 ∈ rest := by
  obtain ⟨r, hrun, hr⟩ := decodeHex4_spec hp
  cases r with
  | none => exact ⟨none, by simp [unicodeEscape, hrun], by simp⟩
  | some v =>
    obtain ⟨h, rest, rfl, hh, hrest⟩ := hr v rfl
    have hlt := hh.lt
    rw [show 92 :: 117 :: (h ++ rest) = 92 :: 117 :: h ++ rest from rfl, unicodeEscape_of_hex4 hh]
    by_cases hsurrogate : v &&& 0xF800 = 0xD800
    · rw [if_pos hsurrogate]
      by_cases hfirst : v &&& 0x400 ≠ 0
      · exact ⟨none, by rw [if_pos hfirst], by simp⟩
      obtain ⟨r, hrun, hr⟩ := lowSurrogate_spec hrest
      rw [if_neg hfirst, hrun]
      cases r with
      | none => exact ⟨none, rfl, by simp⟩
      | some w =>
        obtain ⟨l, rest, rfl, hl, hw, hrest⟩ := hr w rfl
        rw [and_f800] at hsurrogate
        rw [and_400] at hfirst
        obtain ⟨c, hc⟩ := exists_toNat_eq (n := v % 1024 * 1024 + w % 1024 + 0x10000) (.inr (by omega))
        have hvalue : ((v &&& 0x3FF) <<< 10 ||| (w &&& 0x3FF)) + 0x10000 = c.toNat := by rw [surrogates_value, hc]
        refine ⟨some (c.toNat, 12), by rw [← hvalue]; rfl, ?_⟩
        intro found hfound
        obtain rfl := Option.mem_some_iff.mp hfound
        refine ⟨92 :: 117 :: h ++ 92 :: 117 :: l, c, rest, by simp, .pair (by omega) ?_ ?_, ?_, hrest⟩
        · exact hh.of_eq (by omega)
        · exact hl.of_eq (by omega)
        · simp [hh.length_eq, hl.length_eq]
    · rw [if_neg hsurrogate]
      rw [and_f800] at hsurrogate
      obtain ⟨c, rfl⟩ := exists_toNat_eq (n := v) (by unfold Nat.isValidChar; omega)
      refine ⟨_, rfl, ?_⟩
      intro found hfound
      obtain rfl := Option.mem_some_iff.mp hfound
      exact ⟨92 :: 117 :: h, c, rest, rfl, .unit hh, by simp [hh.length_eq], hrest⟩

theorem length_utf8EncodeChar_le (c : Char) : (String.utf8EncodeChar c).length ≤ 4 := by
  fun_cases String.utf8EncodeChar c <;> simp

theorem length_utf8EncodeChar_pos (c : Char) : 0 < (String.utf8EncodeChar c).length := by
  fun_cases String.utf8EncodeChar c <;> simp

theorem Escape.six_le_length {e : List UInt8} {c : Char} (he : Escape e c) : 6 ≤ e.length := by
  cases he with
  | unit hh => simp [hh.length_eq]
  | pair hc hh hl =>
    simp [hh.length_eq]

theorem Escape.exists_cons {e : List UInt8} {c : Char} (he : Escape e c) : ∃ tail, e = 92 :: 117 :: tail := by
  cases he with
  | unit hh => exact ⟨_, rfl⟩
  | pair hc hh hl => exact ⟨_, rfl⟩

theorem jsonAppendUnicodeEscape_of_escape {e : List UInt8} {c : Char} (he : Escape e c) (rest : List UInt8) {tmp : Strbuf}
    (hroom : tmp.length + 6 ≤ tmp.size) :
    jsonAppendUnicodeEscape (e ++ rest) tmp =
      .ok (some (rest, { tmp with bytes := tmp.bytes ++ String.utf8EncodeChar c })) := by
  have hle := length_utf8EncodeChar_le c
  have hpos := length_utf8EncodeChar_pos c
  have hempty : ¬ (String.utf8EncodeChar c).isEmpty = true := by
    rw [List.isEmpty_iff_length_eq_zero]
    omega
  simp only [jsonAppendUnicodeEscape, unicodeEscape_of_escape he, ok_bind, codepointToUtf8_toNat, if_neg hempty,
    Strbuf.appendMemUnsafe_of_room (show tmp.length + (String.utf8EncodeChar c).length ≤ tmp.size by omega), stored,
    List.drop_left, pure_eq_ok]

theorem escape2char_of_mem {e c : UInt8} (h : (e, c) ∈ shortEscapes) : escape2char e = c ∧ c ≠ 117 ∧ c ≠ 0 := by
  simp only [shortEscapes, List.mem_cons, Prod.mk.injEq, List.not_mem_nil, or_false] at h
  rcases h with ⟨rfl, rfl⟩ | ⟨rfl, rfl⟩ | ⟨rfl, rfl⟩ | ⟨rfl, rfl⟩ | ⟨rfl, rfl⟩ | ⟨rfl, rfl⟩ | ⟨rfl, rfl⟩ | ⟨rfl, rfl⟩ <;>
    decide

theorem escape2char_cases (e : UInt8) :
    (e = 117 ∧ escape2char e = 117) ∨ escape2char e = 0 ∨ (escape2char e ≠ 117 ∧ (e, escape2char e) ∈ shortEscapes) := by
  unfold escape2char
  split_ifs with h₁ h₂ h₃ h₄ h₅ h₆ h₇
  · rcases h₁ with rfl | rfl | rfl <;> decide
  · subst h₂; decide
  · subst h₃; decide
  · subst h₄; decide
  · subst h₅; decide
  · subst h₆; decide
  · exact .inl ⟨h₇, rfl⟩
  · exact .inr (.inl rfl)

/-! ### The loop -/

theorem stringLoop_plain {b : UInt8} (hb : b ≠ 34 ∧ b ≠ 92 ∧ b ≠ 0) (rounds : Nat) (text : List UInt8) {tmp : Strbuf}
    (hroom : tmp.length < tmp.size) :
    stringLoop (rounds + 1) (b :: text) tmp = stringLoop rounds text { tmp with bytes := tmp.bytes ++ [b] } := by
  rw [stringLoop]
  simp only [read_cons_zero, ok_bind, if_neg hb.1, if_neg hb.2.1, if_neg hb.2.2, Strbuf.appendCharUnsafe_of_room hroom,
    stored, List.drop_succ_cons, List.drop_zero]

theorem stringLoop_short {e c : UInt8} (hc : (e, c) ∈ shortEscapes) (rounds : Nat) (text : List UInt8) {tmp : Strbuf}
    (hroom : tmp.length < tmp.size) :
    stringLoop (rounds + 1) (92 :: e :: text) tmp = stringLoop rounds text { tmp with bytes := tmp.bytes ++ [c] } := by
  obtain ⟨hesc, hu, hzero⟩ := escape2char_of_mem hc
  rw [stringLoop]
  simp [hesc, hu, hzero, Strbuf.appendCharUnsafe_of_room hroom, stored]

theorem stringLoop_unicode {e : List UInt8} {c : Char} (he : Escape e c) (rounds : Nat) (text : List UInt8) {tmp : Strbuf}
    (hroom : tmp.length + 6 ≤ tmp.size) :
    stringLoop (rounds + 1) (e ++ text) tmp =
      stringLoop rounds text { tmp with bytes := tmp.bytes ++ String.utf8EncodeChar c } := by
  have hrun := jsonAppendUnicodeEscape_of_escape he text hroom
  obtain ⟨tail, rfl⟩ := he.exists_cons
  rw [List.cons_append, List.cons_append] at hrun ⊢
  rw [stringLoop]
  simp [hrun, show escape2char 117 = 117 from rfl]

theorem stringLoop_of_body {text s rest : List UInt8} (h : Body text s rest) {rounds : Nat} {tmp : Strbuf}
    (hrounds : text.length ≤ rounds) (hroom : tmp.length + text.length ≤ tmp.size) :
    stringLoop rounds text tmp = .ok (none, rest, { tmp with bytes := tmp.bytes ++ s }) := by
  induction h generalizing rounds tmp with
  | close rest =>
    obtain ⟨rounds, rfl⟩ := Nat.exists_eq_add_one.mpr (Nat.lt_of_lt_of_le (by simp) hrounds)
    simp [stringLoop]
  | @plain b text s rest hb h ih =>
    rw [List.length_cons] at hrounds hroom
    obtain ⟨rounds, rfl⟩ := Nat.exists_eq_add_one.mpr (show 0 < rounds by omega)
    rw [stringLoop_plain hb rounds text (by omega), ih (by omega) (by
      simp only [Strbuf.length, List.length_append, List.length_singleton] at hroom ⊢
      omega)]
    simp
  | @short e c text s rest hc h ih =>
    rw [List.length_cons, List.length_cons] at hrounds hroom
    obtain ⟨rounds, rfl⟩ := Nat.exists_eq_add_one.mpr (show 0 < rounds by omega)
    rw [stringLoop_short hc rounds text (by omega), ih (by omega) (by
      simp only [Strbuf.length, List.length_append, List.length_singleton] at hroom ⊢
      omega)]
    simp
  | @unicode e c text s rest he h ih =>
    have hsix := he.six_le_length
    have hutf8 := length_utf8EncodeChar_le c
    rw [List.length_append] at hrounds hroom
    obtain ⟨rounds, rfl⟩ := Nat.exists_eq_add_one.mpr (show 0 < rounds by omega)
    rw [stringLoop_unicode he rounds text (by omega), ih (by omega) (by
      simp only [Strbuf.length, List.length_append] at hroom ⊢
      omega)]
    simp

/-- What the loop leaves: it has stayed in the text and in the buffer, and what it calls a string is one. -/
structure StringRead (text : List UInt8) (tmp : Strbuf) (failed : Option String) (rest : List UInt8) (tmp' : Strbuf) :
    Prop where
  nul : 0 ∈ rest
  length_le : rest.length ≤ text.length
  size_eq : tmp'.size = tmp.size
  body : failed = none → ∃ s, Body text s rest ∧ tmp'.bytes = tmp.bytes ++ s ∧ tmp'.length + rest.length < tmp.size

theorem StringRead.of_round {text text' bs rest : List UInt8} {tmp tmp' : Strbuf} {failed : Option String}
    (h : StringRead text' { tmp with bytes := tmp.bytes ++ bs } failed rest tmp') (hlen : text'.length ≤ text.length)
    (hbody : ∀ s, Body text' s rest → Body text (bs ++ s) rest) : StringRead text tmp failed rest tmp' := by
  refine ⟨h.nul, h.length_le.trans hlen, h.size_eq, fun hok => ?_⟩
  obtain ⟨s, hs, hbytes, hlt⟩ := h.body hok
  exact ⟨bs ++ s, hbody s hs, by rw [hbytes, List.append_assoc], hlt⟩

theorem stringLoop_spec {rounds : Nat} {text : List UInt8} {tmp : Strbuf} (hrounds : text.length ≤ rounds)
    (hnul : 0 ∈ text) (hroom : tmp.length + text.length ≤ tmp.size) :
    ∃ failed rest tmp', stringLoop rounds text tmp = .ok (failed, rest, tmp') ∧ StringRead text tmp failed rest tmp' := by
  induction rounds generalizing text tmp with
  | zero => exact absurd hnul (by simp [List.eq_nil_of_length_eq_zero (Nat.le_zero.mp hrounds)])
  | succ rounds ih =>
    obtain ⟨b, rest, rfl, hb⟩ := exists_cons_of_mem hnul
    rw [List.length_cons] at hrounds hroom
    by_cases hquote : b = 34
    · subst hquote
      refine ⟨none, rest, tmp, by simp [stringLoop], hb (by decide), by simp, rfl, fun _ => ?_⟩
      exact ⟨[], .close rest, by simp, by omega⟩
    by_cases hzero : b = 0
    · subst hzero
      exact ⟨some _, 0 :: rest, tmp, by simp [stringLoop]; rfl, hnul, Nat.le_refl _, rfl, by simp⟩
    by_cases hslash : b = 92
    · subst hslash
      obtain ⟨e, rest, rfl, he⟩ := exists_cons_of_mem (hb (by decide))
      rw [List.length_cons] at hrounds hroom
      rcases escape2char_cases e with ⟨rfl, hu⟩ | hnone | ⟨hu, hmem⟩
      · obtain ⟨r, hrun, hr⟩ := unicodeEscape_spec (he (by decide))
        cases r with
        | none =>
          refine ⟨some "invalid unicode escape code", 92 :: 117 :: rest, tmp, ?_, hnul, Nat.le_refl _, rfl, by simp⟩
          simp [stringLoop, hu, jsonAppendUnicodeEscape, hrun]
        | some found =>
          obtain ⟨e, c, rest', heq, hesc, -, hnul'⟩ := hr found rfl
          have hsix := hesc.six_le_length
          have hutf8 := length_utf8EncodeChar_le c
          have hlen := congrArg List.length heq
          simp only [List.length_cons, List.length_append] at hlen
          obtain ⟨failed, rest'', tmp', hloop, hread⟩ := @ih rest' { tmp with bytes := tmp.bytes ++ String.utf8EncodeChar c }
            (by omega) hnul' (by simp only [Strbuf.length, List.length_append] at hroom ⊢; omega)
          refine ⟨failed, rest'', tmp', ?_, hread.of_round ?_ ?_⟩
          · rw [heq, stringLoop_unicode hesc rounds rest' (by omega)]
            exact hloop
          · simp only [List.length_cons]
            omega
          · intro s hs
            rw [heq]
            exact .unicode hesc hs
      · exact ⟨some "invalid escape code", 92 :: e :: rest, tmp, by simp [stringLoop, hnone], hnul, Nat.le_refl _, rfl,
          by simp⟩
      · have hne : e ≠ 0 := by
          rintro rfl
          exact absurd hmem (by decide)
        obtain ⟨failed, rest', tmp', hloop, hread⟩ := @ih rest { tmp with bytes := tmp.bytes ++ [escape2char e] }
          (by omega) (he hne) (by simp only [Strbuf.length, List.length_append, List.length_singleton] at hroom ⊢; omega)
        refine ⟨failed, rest', tmp', ?_, hread.of_round ?_ fun s hs => .short hmem hs⟩
        · rw [stringLoop_short hmem rounds rest (by omega)]
          exact hloop
        · simp only [List.length_cons]
          omega
    · have hplain : b ≠ 34 ∧ b ≠ 92 ∧ b ≠ 0 := ⟨hquote, hslash, hzero⟩
      obtain ⟨failed, rest', tmp', hloop, hread⟩ := @ih rest { tmp with bytes := tmp.bytes ++ [b] } (by omega) (hb hzero)
        (by simp only [Strbuf.length, List.length_append, List.length_singleton] at hroom ⊢; omega)
      refine ⟨failed, rest', tmp', ?_, hread.of_round (by simp) fun s hs => .plain hplain hs⟩
      rw [stringLoop_plain hplain rounds rest (by omega)]
      exact hloop

end SkynetServer.Cjson
