import Mathlib.Data.Fintype.Basic
import Mathlib.Data.List.GetD
import Mathlib.Tactic.FinCases
import Mathlib.Tactic.Ring
import SkynetServer.Websocket.FilterData

/-!
# Frames on the wire

What a peer may send: a frame with FIN set, no reserved bit, an opcode, a length in one of three forms and an
optional mask key. `read_size` recovers exactly the announced length, the mask and the extent of the header from
a complete header, and asks for more on every proper prefix of one.
-/

namespace SkynetServer.Websocket

/-- The three forms of the length field. -/
inductive LengthForm where
  | seven
  | sixteen
  | sixtyFour
deriving DecidableEq

def LengthForm.Fits : LengthForm → Nat → Prop
  | .seven, n => n < 126
  | .sixteen, n => n < 2 ^ 16
  | .sixtyFour, n => n < 2 ^ 64

instance : (form : LengthForm) → (n : Nat) → Decidable (form.Fits n)
  | .seven, _ => Nat.decLt _ _
  | .sixteen, _ => Nat.decLt _ _
  | .sixtyFour, _ => Nat.decLt _ _

/-- Byte `idx` of a length, counted from the low end. -/
def frameSetLength (x idx : Nat) : UInt8 := UInt8.ofNat ((x >>> (idx * 8)) &&& 0xff)

/-- The seven bits in the second byte of the frame. -/
def lengthCode : LengthForm → Nat → Nat
  | .seven, n => n
  | .sixteen, _ => 126
  | .sixtyFour, _ => 127

/-- The bytes behind them. -/
def extendedLength : LengthForm → Nat → List UInt8
  | .seven, _ => []
  | .sixteen, n => [frameSetLength n 1, frameSetLength n 0]
  | .sixtyFour, n =>
    [frameSetLength n 7, frameSetLength n 6, frameSetLength n 5, frameSetLength n 4,
      frameSetLength n 3, frameSetLength n 2, frameSetLength n 1, frameSetLength n 0]

def maskBit (mask : Option (Fin 4 → UInt8)) : Nat := if mask.isSome then 128 else 0

/-- The first two bytes of a frame. -/
def frameHead (opcode : Nat) (form : LengthForm) (n : Nat) (mask : Option (Fin 4 → UInt8)) : List UInt8 :=
  [UInt8.ofNat (128 + opcode), UInt8.ofNat (maskBit mask + lengthCode form n)]

/-- A whole header. -/
def frameHeader (opcode : Nat) (form : LengthForm) (n : Nat) (mask : Option (Fin 4 → UInt8)) : List UInt8 :=
  frameHead opcode form n mask ++ (extendedLength form n ++ maskKey mask)

def applyMask (mask : Option (Fin 4 → UInt8)) (phase : Nat) (bytes : List UInt8) : List UInt8 :=
  match mask with
  | none => bytes
  | some key => maskBytes key phase bytes

/-- A data frame the decoder has to deliver. -/
structure Frame where
  opcode : Nat
  form : LengthForm
  mask : Option (Fin 4 → UInt8)
  payload : List UInt8
  opcode_lt : opcode < 16
  opcode_ne_zero : opcode ≠ 0
  opcode_ne_close : opcode ≠ 8
  form_fits : form.Fits payload.length
  payload_le : payload.length ≤ maxPacksize

namespace Frame

def header (f : Frame) : List UInt8 := frameHeader f.opcode f.form f.payload.length f.mask

def body (f : Frame) : List UInt8 := applyMask f.mask 0 f.payload

def encode (f : Frame) : List UInt8 := f.header ++ f.body

def encodeAll (fs : List Frame) : List UInt8 := fs.flatMap encode

end Frame

/-- `lpack`: FIN, opcode 2, no mask, the shortest length form. -/
def lpack (msg : List UInt8) : List UInt8 :=
  let len := msg.length
  let first := UInt8.ofNat (1 <<< 7 ||| 2)
  if len < 126 then first :: frameSetLength len 0 :: msg
  else if len < 65536 then
    first :: 126 :: frameSetLength len 1 :: frameSetLength len 0 :: msg
  else
    first :: 127 :: frameSetLength len 7 :: frameSetLength len 6 :: frameSetLength len 5 :: frameSetLength len 4 ::
      frameSetLength len 3 :: frameSetLength len 2 :: frameSetLength len 1 :: frameSetLength len 0 :: msg

/-! ### Arithmetic of the length field -/

theorem frameSetLength_toNat (x idx : Nat) : (frameSetLength x idx).toNat = x / 256 ^ idx % 256 := by
  rw [frameSetLength, show (0xff : Nat) = 2 ^ 8 - 1 from rfl, Nat.and_two_pow_sub_one_eq_mod,
    Nat.shiftRight_eq_div_pow, Nat.mul_comm, pow_mul, UInt8.toNat_ofNat']
  norm_num

theorem ntohs_load (b0 b1 : UInt8) : ntohs (loadLE [b0, b1]) = b0.toNat * 256 + b1.toNat := by
  have h0 := b0.toNat_lt
  have h1 := b1.toNat_lt
  simp only [ntohs, loadLE]
  omega

theorem ntohl_lt (x : Nat) : ntohl x < 2 ^ 32 := by
  unfold ntohl
  omega

theorem ntohl_load (b0 b1 b2 b3 : UInt8) :
    ntohl (loadLE [b0, b1, b2, b3]) =
      b0.toNat * 2 ^ 24 + b1.toNat * 2 ^ 16 + b2.toNat * 2 ^ 8 + b3.toNat := by
  have h0 := b0.toNat_lt
  have h1 := b1.toNat_lt
  have h2 := b2.toNat_lt
  have h3 := b3.toNat_lt
  simp only [ntohl, loadLE]
  omega

theorem loadLE_append (xs ys : List UInt8) :
    loadLE (xs ++ ys) = loadLE xs + 256 ^ xs.length * loadLE ys := by
  induction xs with
  | nil => simp [loadLE]
  | cons b xs ih =>
    simp only [List.cons_append, loadLE, ih, List.length_cons, pow_succ]
    ring

theorem loadLE_lt (xs : List UInt8) : loadLE xs < 256 ^ xs.length := by
  induction xs with
  | nil => simp [loadLE]
  | cons b xs ih =>
    have hb := b.toNat_lt
    simp only [loadLE, List.length_cons, pow_succ]
    omega

theorem ntoh64_load (b0 b1 b2 b3 b4 b5 b6 b7 : UInt8) :
    ntoh64 (loadLE [b0, b1, b2, b3, b4, b5, b6, b7]) =
      ntohl (loadLE [b0, b1, b2, b3]) * 2 ^ 32 + ntohl (loadLE [b4, b5, b6, b7]) := by
  have hsplit : loadLE [b0, b1, b2, b3, b4, b5, b6, b7] =
      loadLE [b0, b1, b2, b3] + 2 ^ 32 * loadLE [b4, b5, b6, b7] := by
    simpa using loadLE_append [b0, b1, b2, b3] [b4, b5, b6, b7]
  have hlow : loadLE [b0, b1, b2, b3] < 2 ^ 32 := by simpa using loadLE_lt [b0, b1, b2, b3]
  have hhigh : loadLE [b4, b5, b6, b7] < 2 ^ 32 := by simpa using loadLE_lt [b4, b5, b6, b7]
  have hmask : (0xFFFFFFFF : Nat) = 2 ^ 32 - 1 := rfl
  simp only [ntoh64, hmask, Nat.and_two_pow_sub_one_eq_mod, Nat.shiftRight_eq_div_pow]
  rw [← Nat.shiftLeft_add_eq_or_of_lt (ntohl_lt _), Nat.shiftLeft_eq, hsplit,
    Nat.add_mul_mod_self_left, Nat.mod_eq_of_lt hlow, Nat.add_mul_div_left _ _ (by norm_num),
    Nat.div_eq_of_lt hlow, Nat.zero_add, Nat.mod_eq_of_lt hhigh]

/-- The 64-bit length field read back. -/
theorem ntoh64_frameSetLength {n : Nat} (hn : n < 2 ^ 64) :
    ntoh64 (loadLE [frameSetLength n 7, frameSetLength n 6, frameSetLength n 5, frameSetLength n 4,
      frameSetLength n 3, frameSetLength n 2, frameSetLength n 1, frameSetLength n 0]) = n := by
  rw [ntoh64_load, ntohl_load, ntohl_load]
  simp only [frameSetLength_toNat]
  norm_num
  omega

theorem ntohs_frameSetLength {n : Nat} (hn : n < 2 ^ 16) :
    ntohs (loadLE [frameSetLength n 1, frameSetLength n 0]) = n := by
  rw [ntohs_load]
  simp only [frameSetLength_toNat]
  omega

theorem toInt_of_lt {n : Nat} (hn : n < 2 ^ 31) : toInt n = n := by
  unfold toInt
  rw [Int.bmod_def]
  omega

/-! ### Reading a header back -/

theorem lengthCode_lt {form : LengthForm} {n : Nat} (hfits : form.Fits n) : lengthCode form n < 128 := by
  cases form <;> simp only [lengthCode, LengthForm.Fits] at hfits ⊢ <;> omega

@[simp] theorem length_frameHead (opcode : Nat) (form : LengthForm) (n : Nat) (mask : Option (Fin 4 → UInt8)) :
    (frameHead opcode form n mask).length = 2 := rfl

theorem firstByte (opcode : Fin 16) :
    let first := UInt8.ofNat (128 + opcode.val)
    (first >>> 7) &&& 0x1 = 1 ∧ (first >>> 6) &&& 0x1 = 0 ∧ (first >>> 5) &&& 0x1 = 0 ∧
      (first >>> 4) &&& 0x1 = 0 ∧ first &&& 0xf = UInt8.ofNat opcode.val := by
  revert opcode
  decide

theorem secondByte (code : Fin 128) (masked : Bool) :
    let second := UInt8.ofNat ((if masked then 128 else 0) + code.val)
    (second >>> 7) &&& 0x1 = (if masked then 1 else 0) ∧ second &&& 0x7f = UInt8.ofNat code.val := by
  revert code masked
  decide

theorem ofNat_eq_iff {a b : Nat} (ha : a < 256) (hb : b < 256) : UInt8.ofNat a = UInt8.ofNat b ↔ a = b := by
  constructor
  · intro h
    have := congrArg UInt8.toNat h
    rwa [UInt8.toNat_ofNat', UInt8.toNat_ofNat', Nat.mod_eq_of_lt (by norm_num; omega),
      Nat.mod_eq_of_lt (by norm_num; omega)] at this
  · exact fun h => h ▸ rfl

theorem ofNat_lt_iff {a b : Nat} (ha : a < 256) (hb : b < 256) : UInt8.ofNat a < UInt8.ofNat b ↔ a < b := by
  rw [UInt8.lt_iff_toNat_lt, UInt8.toNat_ofNat', UInt8.toNat_ofNat', Nat.mod_eq_of_lt (by norm_num; omega),
    Nat.mod_eq_of_lt (by norm_num; omega)]

/-- The length `read_size` takes from the bytes behind the first two. -/
def announced (form : LengthForm) (n : Nat) (rest : List UInt8) : Int :=
  match form with
  | .seven => n
  | .sixteen => ntohs (loadLE (rest.take 2))
  | .sixtyFour => toInt (ntoh64 (loadLE (rest.take 8)))

theorem readSize_frameHead {opcode n : Nat} {form : LengthForm} {mask : Option (Fin 4 → UInt8)}
    (hlt : opcode < 16) (hzero : opcode ≠ 0) (hclose : opcode ≠ 8) (hfits : form.Fits n)
    (rest : List UInt8) (v : HeadVars) :
    readSize (frameHead opcode form n mask ++ rest) v =
      if rest.length < (extendedLength form n).length then (-1, v)
      else readMask (frameHead opcode form n mask ++ rest) v (if mask.isSome then 1 else 0)
        (2 + (extendedLength form n).length) (announced form n rest) := by
  obtain ⟨hfin, hrsv1, hrsv2, hrsv3, hop⟩ := firstByte ⟨opcode, hlt⟩
  obtain ⟨hmask, hcode⟩ := secondByte ⟨lengthCode form n, lengthCode_lt hfits⟩ mask.isSome
  have hopzero : UInt8.ofNat opcode ≠ 0 := fun h => hzero ((ofNat_eq_iff (by omega) (by omega)).mp h)
  have hopclose : UInt8.ofNat opcode ≠ 8 := fun h => hclose ((ofNat_eq_iff (by omega) (by omega)).mp h)
  have hone : ¬ ((1 : UInt8) = 0) := by decide
  have hroom : ¬ (frameHead opcode form n mask ++ rest).length < 2 := by
    rw [List.length_append, length_frameHead]
    omega
  simp only [readSize]
  rw [if_neg hroom]
  simp only [frameHead, maskBit, List.cons_append, List.nil_append, List.getD_cons_zero, List.getD_cons_succ,
    hfin, hrsv1, hrsv2, hrsv3, hop, hmask, hcode, hopzero, hopclose, hone, ne_eq, not_true_eq_false, or_self,
    if_false, List.length_cons, websocketHeaderLen, List.drop_succ_cons, List.drop_zero]
  cases form with
  | seven =>
    simp only [LengthForm.Fits] at hfits
    have hsmall : UInt8.ofNat n < 0x7e := (ofNat_lt_iff (by omega) (by decide)).mpr hfits
    have hnat : (UInt8.ofNat n).toNat = n := by
      rw [UInt8.toNat_ofNat', Nat.mod_eq_of_lt (by norm_num; omega)]
    simp only [lengthCode, hsmall, if_true, hnat, extendedLength, List.length_nil, Nat.not_lt_zero, if_false,
      announced, Nat.add_zero]
  | sixteen =>
    have hlarge : ¬ (0x7e : UInt8) < 0x7e := by decide
    have heq : UInt8.ofNat 126 = 0x7e := rfl
    have hroom : rest.length + 1 + 1 < 2 + 2 ↔ rest.length < 2 := by omega
    simp only [lengthCode, heq, hlarge, hroom, if_true, if_false, extendedLength, List.length_cons,
      List.length_nil, announced, Nat.zero_add, Nat.reduceAdd]
  | sixtyFour =>
    have hlarge : ¬ UInt8.ofNat 127 < 0x7e := by decide
    have hne : ¬ UInt8.ofNat 127 = 0x7e := by decide
    have hroom : rest.length + 1 + 1 < 2 + 8 ↔ rest.length < 8 := by omega
    simp only [lengthCode, hlarge, hne, hroom, if_false, extendedLength, List.length_cons, List.length_nil,
      announced, Nat.zero_add, Nat.reduceAdd]

/-- What a complete header leaves in the variables. -/
def headVars (v : HeadVars) (form : LengthForm) (n : Nat) (mask : Option (Fin 4 → UInt8)) : HeadVars :=
  match mask with
  | none => { v with packHeadLength := 2 + (extendedLength form n).length }
  | some key => { v with
      packHeadLength := 2 + (extendedLength form n).length + 4
      ismask := true
      mask := key }

theorem announced_extendedLength {form : LengthForm} {n : Nat} (hfits : form.Fits n) (hint : n < 2 ^ 31)
    (rest : List UInt8) : announced form n (extendedLength form n ++ rest) = n := by
  cases form with
  | seven => rfl
  | sixteen => exact congrArg Nat.cast (ntohs_frameSetLength hfits)
  | sixtyFour => exact (congrArg toInt (ntoh64_frameSetLength hfits)).trans (toInt_of_lt hint)

theorem length_frameHeader (opcode : Nat) (form : LengthForm) (n : Nat) (mask : Option (Fin 4 → UInt8)) :
    (frameHeader opcode form n mask).length = 2 + (extendedLength form n).length + (maskKey mask).length := by
  simp [frameHeader, Nat.add_assoc]

theorem frameHeader_bounds (opcode : Nat) (form : LengthForm) (n : Nat) (mask : Option (Fin 4 → UInt8)) :
    2 ≤ (frameHeader opcode form n mask).length ∧ (frameHeader opcode form n mask).length ≤ 14 := by
  rw [length_frameHeader]
  cases form <;> cases mask <;> simp [extendedLength, maskKey]

/-- A complete header is read exactly. -/
theorem readSize_frameHeader {opcode n : Nat} {form : LengthForm} (mask : Option (Fin 4 → UInt8))
    (hlt : opcode < 16) (hzero : opcode ≠ 0) (hclose : opcode ≠ 8) (hfits : form.Fits n) (hint : n < 2 ^ 31)
    (rest : List UInt8) (v : HeadVars) :
    readSize (frameHeader opcode form n mask ++ rest) v = ((n : Int), headVars v form n mask) := by
  rw [frameHeader, List.append_assoc, readSize_frameHead hlt hzero hclose hfits, if_neg (by simp),
    List.append_assoc, announced_extendedLength hfits hint]
  cases mask with
  | none => simp [readMask, headVars]
  | some key =>
    have hlong : ¬ (frameHead opcode form n (some key) ++
        (extendedLength form n ++ (maskKey (some key) ++ rest))).length <
          2 + (extendedLength form n).length + websocketMaskLen := by
      simp [maskKey, websocketMaskLen]
      omega
    have hkey : ∀ i : Fin 4, (frameHead opcode form n (some key) ++
        (extendedLength form n ++ (maskKey (some key) ++ rest))).getD
          (2 + (extendedLength form n).length + i) 0 = key i := by
      intro i
      rw [← List.append_assoc, List.getD_append_right _ _ _ _ (by simp)]
      simp only [List.length_append, length_frameHead, Nat.add_sub_cancel_left]
      fin_cases i <;> rfl
    rw [readMask, if_pos (by simp), if_neg hlong, funext hkey]
    rfl

/-- A header that is cut short asks for more. -/
theorem readSize_of_header_prefix {opcode n : Nat} {form : LengthForm} {mask : Option (Fin 4 → UInt8)}
    (hlt : opcode < 16) (hzero : opcode ≠ 0) (hclose : opcode ≠ 8) (hfits : form.Fits n)
    {cut : List UInt8} (hpre : cut <+: frameHeader opcode form n mask)
    (hcut : cut.length < (frameHeader opcode form n mask).length) (v : HeadVars) :
    readSize cut v = (-1, v) := by
  by_cases hshort : cut.length < 2
  · exact readSize_of_length_lt v hshort
  obtain ⟨rest, hrest⟩ : frameHead opcode form n mask <+: cut :=
    List.prefix_of_prefix_length_le (List.prefix_append _ _) hpre (by simp; omega)
  rw [length_frameHeader] at hcut
  subst hrest
  rw [List.length_append, length_frameHead] at hcut
  rw [readSize_frameHead hlt hzero hclose hfits]
  split
  · rfl
  · cases mask with
    | none => simp [maskKey] at hcut; omega
    | some key =>
      simp only [maskKey, List.length_cons, List.length_nil] at hcut
      simp only [readMask, Option.isSome_some, if_true, List.length_append, length_frameHead, websocketMaskLen]
      rw [if_pos (by decide), if_pos (by omega)]

/-! ### Masking -/

@[simp] theorem length_applyMask (mask : Option (Fin 4 → UInt8)) (phase : Nat) (bytes : List UInt8) :
    (applyMask mask phase bytes).length = bytes.length := by
  cases mask <;> simp [applyMask, maskBytes]

theorem applyMask_append (mask : Option (Fin 4 → UInt8)) (phase : Nat) (xs ys : List UInt8) :
    applyMask mask phase (xs ++ ys) = applyMask mask phase xs ++ applyMask mask (xs.length + phase) ys := by
  cases mask with
  | none => rfl
  | some key =>
    simp only [applyMask, maskBytes, List.mapIdx_append]
    congr 2
    funext i b
    rw [Nat.add_assoc]

theorem applyMask_applyMask (mask : Option (Fin 4 → UInt8)) (phase : Nat) (bytes : List UInt8) :
    applyMask mask phase (applyMask mask phase bytes) = bytes := by
  cases mask with
  | none => rfl
  | some key =>
    apply List.ext_getElem
    · simp
    · intro i _ _
      simp only [applyMask, maskBytes, List.getElem_mapIdx]
      rw [UInt8.xor_assoc, UInt8.xor_self, UInt8.xor_zero]

/-- The key a record unmasks with. -/
def Uncomplete.key (uc : Uncomplete) : Option (Fin 4 → UInt8) := if uc.ismask then some uc.mask else none

theorem decodeWsmaskData_fst (bytes : List UInt8) (uc : Uncomplete) :
    (decodeWsmaskData bytes uc).1 = applyMask uc.key uc.hasunmaskSize bytes := by
  unfold decodeWsmaskData Uncomplete.key
  split <;> rfl

theorem key_ofVars_headVars (fd : Int) (form : LengthForm) (n : Nat) (mask : Option (Fin 4 → UInt8)) :
    (Uncomplete.ofVars fd (headVars {} form n mask)).key = mask ∧
      (Uncomplete.ofVars fd (headVars {} form n mask)).hasunmaskSize = 0 := by
  cases mask <;> exact ⟨rfl, rfl⟩

theorem packHeadLength_headVars (opcode : Nat) (v : HeadVars) (form : LengthForm) (n : Nat)
    (mask : Option (Fin 4 → UInt8)) :
    (headVars v form n mask).packHeadLength = (frameHeader opcode form n mask).length := by
  rw [length_frameHeader]
  cases mask <;> rfl

/-! ### Scanning a frame -/

theorem skipFrames_of_not_refused {refused : Int → Bool} {buffer : List UInt8} {v : HeadVars}
    (h : refused (readSize buffer v).1 = false) :
    skipFrames refused buffer v = ⟨(readSize buffer v).1, (readSize buffer v).2, buffer⟩ := by
  match buffer with
  | [] => rw [skipFrames, readSize_of_length_lt v (by simp)]; simp
  | [_] => rw [skipFrames, readSize_of_length_lt v (by simp)]; simp
  | a :: b :: rest =>
    rw [skipFrames]
    simp [h]

theorem scanHeader_frameHeader {opcode n : Nat} {form : LengthForm} (mask : Option (Fin 4 → UInt8))
    (hlt : opcode < 16) (hzero : opcode ≠ 0) (hclose : opcode ≠ 8) (hfits : form.Fits n) (hint : n < 2 ^ 31)
    {refused : Int → Bool} (hrefused : refused n = false) (rest : List UInt8) (v : HeadVars) :
    scanHeader refused false (frameHeader opcode form n mask ++ rest) v =
      ⟨clampSize n, headVars v form n mask, frameHeader opcode form n mask ++ rest⟩ := by
  have hread := readSize_frameHeader mask hlt hzero hclose hfits hint rest v
  rw [scanHeader, if_neg (by decide), skipFrames_of_not_refused (by rw [hread]; exact hrefused), hread]

theorem scanHeader_frameHeader_cut {opcode n : Nat} {form : LengthForm} {mask : Option (Fin 4 → UInt8)}
    (hlt : opcode < 16) (hzero : opcode ≠ 0) (hclose : opcode ≠ 8) (hfits : form.Fits n)
    {refused : Int → Bool} (hrefused : refused (-1) = false) {cut : List UInt8}
    (hpre : cut <+: frameHeader opcode form n mask) (hcut : cut.length < (frameHeader opcode form n mask).length)
    (v : HeadVars) : scanHeader refused false cut v = ⟨-1, v, cut⟩ := by
  have hread := readSize_of_header_prefix hlt hzero hclose hfits hpre hcut v
  rw [scanHeader, if_neg (by decide), skipFrames_of_not_refused (by rw [hread]; exact hrefused), hread]
  simp [clampSize_of_nonpos]

namespace Frame

theorem payload_lt_int (f : Frame) : f.payload.length < 2 ^ 31 :=
  lt_of_le_of_lt f.payload_le (by decide)

@[simp] theorem length_body (f : Frame) : f.body.length = f.payload.length := by simp [body]

theorem header_bounds (f : Frame) : 2 ≤ f.header.length ∧ f.header.length ≤ 14 := frameHeader_bounds _ _ _ _

theorem encode_ne_nil (f : Frame) : f.encode ≠ [] := by
  have := f.header_bounds.1
  intro h
  rw [encode, List.append_eq_nil_iff] at h
  simp [h.1] at this

theorem applyMask_body (f : Frame) : applyMask f.mask 0 f.body = f.payload := applyMask_applyMask _ _ _

theorem scanHeader_header (f : Frame) (refused : Int → Bool) (hrefused : ∀ n : Nat, refused n = false)
    (rest : List UInt8) (v : HeadVars) :
    scanHeader refused false (f.header ++ rest) v =
      ⟨f.payload.length, headVars v f.form f.payload.length f.mask, f.header ++ rest⟩ := by
  have hclamp : clampSize f.payload.length = f.payload.length := by
    have := f.payload_le
    unfold clampSize
    rw [if_neg (by omega)]
  rw [header, scanHeader_frameHeader f.mask f.opcode_lt f.opcode_ne_zero f.opcode_ne_close f.form_fits
    f.payload_lt_int (hrefused _), hclamp]

theorem scanHeader_cut (f : Frame) (refused : Int → Bool) (hrefused : refused (-1) = false) {cut : List UInt8}
    (hpre : cut <+: f.header) (hcut : cut.length < f.header.length) (v : HeadVars) :
    scanHeader refused false cut v = ⟨-1, v, cut⟩ :=
  scanHeader_frameHeader_cut f.opcode_lt f.opcode_ne_zero f.opcode_ne_close f.form_fits hrefused hpre hcut v

end Frame

/-- The frames `lpack` emits are the unmasked ones with opcode 2 and the shortest length form. -/
def packFrame (msg : List UInt8) (hmsg : msg.length ≤ maxPacksize) : Frame where
  opcode := 2
  form := if msg.length < 126 then .seven else .sixteen
  mask := none
  payload := msg
  opcode_lt := by decide
  opcode_ne_zero := by decide
  opcode_ne_close := by decide
  form_fits := by
    split
    · assumption
    · exact lt_of_le_of_lt hmsg (by decide)
  payload_le := hmsg

theorem lpack_eq_encode (msg : List UInt8) (hmsg : msg.length ≤ maxPacksize) :
    lpack msg = (packFrame msg hmsg).encode := by
  have hsmall : msg.length < 65536 := lt_of_le_of_lt hmsg (by decide)
  by_cases h : msg.length < 126
  · have hbyte : frameSetLength msg.length 0 = UInt8.ofNat msg.length := by
      apply UInt8.toNat_inj.mp
      rw [frameSetLength_toNat, UInt8.toNat_ofNat', pow_zero, Nat.div_one]
    simp only [lpack, if_pos h, hbyte]
    simp [Frame.encode, Frame.header, Frame.body, packFrame, frameHeader, frameHead, h, extendedLength, maskKey,
      applyMask, maskBit, lengthCode]
  · simp only [lpack, if_neg h, if_pos hsmall]
    simp [Frame.encode, Frame.header, Frame.body, packFrame, frameHeader, frameHead, h, extendedLength, maskKey,
      applyMask, maskBit, lengthCode]

end SkynetServer.Websocket
