import SkynetServer.Websocket.Frame

/-!
# The length a header announces

What `read_size` should answer for any buffer: the codes `-1`, `-2` and `-3` at the headers that are not complete, not
valid or those of a closing client, and otherwise the length in front of the payload, which is never taken for a code. The
result is an `int`, so a length of 64 bits is cut to its lower half. The answer stands for the length exactly when that cut
neither makes it negative nor brings it back below the largest packet.
-/

namespace SkynetServer.Websocket

def bigEndian (bytes : List UInt8) : Nat := bytes.foldl (fun n b => 256 * n + b.toNat) 0

/-- FIN is not set, a reserved bit is, or the opcode is that of a continuation. -/
def Refused (buffer : List UInt8) : Prop :=
  (buffer.getD 0 0).toNat / 16 % 8 ≠ 0 ∨ (buffer.getD 0 0).toNat < 128 ∨ (buffer.getD 0 0).toNat % 16 = 0

instance (buffer : List UInt8) : Decidable (Refused buffer) := inferInstanceAs (Decidable (_ ∨ _ ∨ _))

def Closing (buffer : List UInt8) : Prop := (buffer.getD 0 0).toNat % 16 = 8

instance (buffer : List UInt8) : Decidable (Closing buffer) := inferInstanceAs (Decidable (_ = _))

def Masked (buffer : List UInt8) : Prop := 128 ≤ (buffer.getD 1 0).toNat

instance (buffer : List UInt8) : Decidable (Masked buffer) := inferInstanceAs (Decidable (_ ≤ _))

/-- How many bytes the extended length takes. -/
def lengthBytes (buffer : List UInt8) : Nat :=
  if (buffer.getD 1 0).toNat % 128 < 126 then 0 else if (buffer.getD 1 0).toNat % 128 = 126 then 2 else 8

def announcedLength (buffer : List UInt8) : Nat :=
  if (buffer.getD 1 0).toNat % 128 < 126 then (buffer.getD 1 0).toNat % 128
  else bigEndian ((buffer.drop 2).take (lengthBytes buffer))

def headerSize (buffer : List UInt8) : Nat := 2 + lengthBytes buffer + if Masked buffer then 4 else 0

/-- A header that announces the length of a packet. -/
structure Announces (buffer : List UInt8) : Prop where
  two : 2 ≤ buffer.length
  accepted : ¬ Refused buffer
  notClosing : ¬ Closing buffer
  complete : headerSize buffer ≤ buffer.length

/-- What the answer should be. -/
def ReadsRight (buffer : List UInt8) (answer : Int × HeadVars) : Prop :=
  if buffer.length < 2 then answer.1 = -1
  else if Refused buffer then answer.1 = -2
  else if Closing buffer then answer.1 = -3
  else if buffer.length < headerSize buffer then answer.1 = -1
  else
    0 ≤ answer.1 ∧ (announcedLength buffer ≤ maxPacksize → answer.1 = announcedLength buffer) ∧
      (maxPacksize < announcedLength buffer → (maxPacksize : Int) < answer.1) ∧
      answer.2.packHeadLength = headerSize buffer ∧ (answer.2.ismask = true ↔ Masked buffer) ∧
      (Masked buffer → ∀ i, answer.2.mask i = buffer.getD (2 + lengthBytes buffer + i) 0)

/-- The lower half of a length that is too large is still too large, and not negative. -/
def SurvivesInt (length : Nat) : Prop :=
  length ≤ maxPacksize ∨ (maxPacksize < length % 2 ^ 32 ∧ length % 2 ^ 32 < 2 ^ 31)

/-! ### What the code computes -/

theorem byteBits (b : UInt8) :
    ((b >>> 7) &&& 0x1 = 0 ↔ b.toNat < 128) ∧
      (((b >>> 6) &&& 0x1 ≠ 0 ∨ (b >>> 5) &&& 0x1 ≠ 0 ∨ (b >>> 4) &&& 0x1 ≠ 0) ↔ b.toNat / 16 % 8 ≠ 0) ∧
      (b &&& 0xf).toNat = b.toNat % 16 ∧ (b &&& 0x7f).toNat = b.toNat % 128 := by
  have hall : ∀ n : Fin 256, let b := UInt8.ofNat n.val
      ((b >>> 7) &&& 0x1 = 0 ↔ b.toNat < 128) ∧
      (((b >>> 6) &&& 0x1 ≠ 0 ∨ (b >>> 5) &&& 0x1 ≠ 0 ∨ (b >>> 4) &&& 0x1 ≠ 0) ↔ b.toNat / 16 % 8 ≠ 0) ∧
      (b &&& 0xf).toNat = b.toNat % 16 ∧ (b &&& 0x7f).toNat = b.toNat % 128 := by
    decide +kernel
  have hb := hall ⟨b.toNat, b.toNat_lt⟩
  simpa only [UInt8.ofNat_toNat] using hb

theorem ntohs_loadLE {bytes : List UInt8} (h : bytes.length = 2) : ntohs (loadLE bytes) = bigEndian bytes := by
  obtain ⟨b0, b1, rfl⟩ := List.length_eq_two.mp h
  rw [ntohs_load]
  simp only [bigEndian, List.foldl_cons, List.foldl_nil]
  omega

theorem ntoh64_loadLE {bytes : List UInt8} (h : bytes.length = 8) : ntoh64 (loadLE bytes) = bigEndian bytes := by
  match bytes, h with
  | [b0, b1, b2, b3, b4, b5, b6, b7], _ =>
    rw [ntoh64_load, ntohl_load, ntohl_load]
    simp only [bigEndian, List.foldl_cons, List.foldl_nil]
    omega

/-- The variables behind a header that is complete. -/
def announcedVars (buffer : List UInt8) (v : HeadVars) : HeadVars :=
  { v with
    packHeadLength := headerSize buffer
    ismask := decide (Masked buffer) || v.ismask
    mask := if Masked buffer then fun i => buffer.getD (2 + lengthBytes buffer + i) 0 else v.mask }

theorem readMask_lengthBytes (buffer : List UInt8) (hlength : 2 + lengthBytes buffer ≤ buffer.length) (v : HeadVars)
    (packSize : Int) :
    readMask buffer v ((buffer.getD 1 0 >>> 7) &&& 0x1) (2 + lengthBytes buffer) packSize =
      if buffer.length < headerSize buffer then (-1, v) else (packSize, announcedVars buffer v) := by
  have hbit := (byteBits (buffer.getD 1 0)).1
  unfold readMask
  by_cases hmasked : Masked buffer
  · have hsize : headerSize buffer = 2 + lengthBytes buffer + websocketMaskLen := by
      rw [headerSize, if_pos hmasked]
      rfl
    rw [if_pos (fun h => absurd (hbit.mp h) (not_lt.mpr hmasked)), hsize]
    simp only [hmasked, announcedVars, hsize, decide_true, Bool.true_or, if_true]
  · have hsize : headerSize buffer = 2 + lengthBytes buffer := by
      rw [headerSize, if_neg hmasked, Nat.add_zero]
    rw [if_neg (not_not.mpr (hbit.mpr (not_le.mp hmasked))), if_neg (by omega)]
    simp only [hmasked, announcedVars, hsize, decide_false, Bool.false_or, if_false]

theorem bigEndian_lt (bytes : List UInt8) : bigEndian bytes < 256 ^ bytes.length := by
  induction bytes using List.reverseRecOn with
  | nil => simp [bigEndian]
  | append_singleton bytes b ih =>
    have hb := b.toNat_lt
    simp only [bigEndian, List.foldl_append, List.foldl_cons, List.foldl_nil, List.length_append, List.length_cons,
      List.length_nil, Nat.zero_add, pow_succ] at ih ⊢
    omega

theorem readSize_eq (buffer : List UInt8) (v : HeadVars) :
    readSize buffer v =
      if buffer.length < 2 then (-1, v)
      else if Refused buffer then (-2, v)
      else if Closing buffer then (-3, v)
      else if buffer.length < headerSize buffer then (-1, v)
      else (toInt (announcedLength buffer), announcedVars buffer v) := by
  obtain ⟨hfin, hrsv, hopcode, -⟩ := byteBits (buffer.getD 0 0)
  obtain ⟨-, -, -, hlength⟩ := byteBits (buffer.getD 1 0)
  have hzero : buffer.getD 0 0 &&& 0xf = 0 ↔ (buffer.getD 0 0).toNat % 16 = 0 := by
    rw [← UInt8.toNat_inj, hopcode]
    rfl
  have height : buffer.getD 0 0 &&& 0xf = 8 ↔ Closing buffer := by
    rw [← UInt8.toNat_inj, hopcode]
    rfl
  have hseven : buffer.getD 1 0 &&& 0x7f < 0x7e ↔ (buffer.getD 1 0).toNat % 128 < 126 := by
    rw [UInt8.lt_iff_toNat_lt, hlength]
    rfl
  have hsixteen : buffer.getD 1 0 &&& 0x7f = 0x7e ↔ (buffer.getD 1 0).toNat % 128 = 126 := by
    rw [← UInt8.toNat_inj, hlength]
    rfl
  have hsize : 2 + lengthBytes buffer ≤ headerSize buffer := Nat.le_add_right _ _
  simp only [readSize, hrsv, hfin, hzero, height, hseven, hsixteen]
  by_cases htwo : buffer.length < 2
  · rw [if_pos htwo, if_pos htwo]
  rw [if_neg htwo, if_neg htwo]
  by_cases hrefused : Refused buffer
  · rw [if_pos hrefused]
    rcases hrefused with h | h
    · rw [if_pos h]
    · rw [if_pos h]
      split <;> rfl
  rw [if_neg hrefused, if_neg fun h => hrefused (.inl h), if_neg fun h => hrefused (.inr h)]
  by_cases hclosing : Closing buffer
  · rw [if_pos hclosing, if_pos hclosing]
  rw [if_neg hclosing, if_neg hclosing]
  by_cases hcode : (buffer.getD 1 0).toNat % 128 < 126
  · have hbytes : lengthBytes buffer = 0 := if_pos hcode
    have hread := readMask_lengthBytes buffer (by omega) v
    rw [if_pos hcode, announcedLength, if_pos hcode, hlength, toInt_of_lt (by omega)]
    rw [hbytes] at hread
    exact hread _
  rw [if_neg hcode, announcedLength, if_neg hcode]
  by_cases hsix : (buffer.getD 1 0).toNat % 128 = 126
  · have hbytes : lengthBytes buffer = 2 := (if_neg hcode).trans (if_pos hsix)
    rw [if_pos hsix]
    by_cases hshort : buffer.length < websocketHeaderLen + 2
    · have htail : buffer.length < 2 + 2 := hshort
      rw [if_pos hshort, if_pos (by omega)]
    · have htail : ¬ buffer.length < 2 + 2 := hshort
      have hread := readMask_lengthBytes buffer (by omega) v
      have htwo : ((buffer.drop 2).take 2).length = 2 := by
        rw [List.length_take, List.length_drop]
        omega
      have hlt := bigEndian_lt ((buffer.drop 2).take 2)
      rw [htwo] at hlt
      rw [hbytes] at hread
      rw [if_neg hshort, hbytes, toInt_of_lt (by omega), ← ntohs_loadLE htwo]
      exact hread _
  · have hbytes : lengthBytes buffer = 8 := (if_neg hcode).trans (if_neg hsix)
    rw [if_neg hsix]
    by_cases hshort : buffer.length < websocketHeaderLen + 8
    · have htail : buffer.length < 2 + 8 := hshort
      rw [if_pos hshort, if_pos (by omega)]
    · have htail : ¬ buffer.length < 2 + 8 := hshort
      have hread := readMask_lengthBytes buffer (by omega) v
      have height : ((buffer.drop 2).take 8).length = 8 := by
        rw [List.length_take, List.length_drop]
        omega
      rw [hbytes] at hread
      rw [if_neg hshort, hbytes, ← ntoh64_loadLE height]
      exact hread _

/-! ### Where the answer stands for the length -/

theorem toInt_survives_iff (length : Nat) :
    (0 ≤ toInt length ∧ (length ≤ maxPacksize → toInt length = length) ∧
      (maxPacksize < length → (maxPacksize : Int) < toInt length)) ↔ SurvivesInt length := by
  have hmax : maxPacksize = 10240 := rfl
  unfold SurvivesInt toInt
  rw [Int.bmod_def, hmax]
  omega

/-- **Lengths and codes.** For every buffer and whatever the variables hold before, with no mask noted in them: the answer
of `read_size` is right exactly when the header does not announce a packet, or announces a length that survives the `int`. -/
theorem readSize_right_iff_survives (buffer : List UInt8) (v : HeadVars) :
    ReadsRight buffer (readSize buffer { v with ismask := false }) ↔
      (Announces buffer → SurvivesInt (announcedLength buffer)) := by
  rw [readSize_eq]
  unfold ReadsRight
  by_cases htwo : buffer.length < 2
  · simp only [htwo, if_true, true_iff]
    exact fun h => absurd h.two (by omega)
  by_cases hrefused : Refused buffer
  · simp only [htwo, hrefused, if_true, if_false, true_iff]
    exact fun h => absurd hrefused h.accepted
  by_cases hclosing : Closing buffer
  · simp only [htwo, hrefused, hclosing, if_true, if_false, true_iff]
    exact fun h => absurd hclosing h.notClosing
  by_cases hshort : buffer.length < headerSize buffer
  · simp only [htwo, hrefused, hclosing, hshort, if_true, if_false, true_iff]
    exact fun h => absurd h.complete (by omega)
  have hall : Announces buffer := ⟨by omega, hrefused, hclosing, by omega⟩
  simp only [htwo, hrefused, hclosing, hshort, if_false, hall, true_imp_iff]
  rw [← toInt_survives_iff]
  refine and_congr_right fun _ => and_congr_right fun _ => and_iff_left ⟨rfl, ?_, fun hmasked i => ?_⟩
  · simp [announcedVars]
  · simp [announcedVars, hmasked]

/-- A complete header that announces `2 ^ 32 - 1` bytes is answered as an incomplete one. -/
theorem not_readsRight_length_is_code :
    ¬ ∀ (buffer : List UInt8) (v : HeadVars), ReadsRight buffer (readSize buffer { v with ismask := false }) := by
  intro hall
  have hright := hall [0x82, 0x7f, 0, 0, 0, 0, 0xff, 0xff, 0xff, 0xff] {}
  have hanswer : (readSize [0x82, 0x7f, 0, 0, 0, 0, 0xff, 0xff, 0xff, 0xff] {}).1 = -1 := by decide
  rw [ReadsRight, if_neg (by decide), if_neg (by decide), if_neg (by decide), if_neg (by decide), hanswer] at hright
  exact absurd hright.1 (by decide)

end SkynetServer.Websocket
