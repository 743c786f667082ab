import Mathlib.Data.Int.Basic
import Mathlib.Data.List.Basic
import Mathlib.Tactic.NormNum

/-!
# Reading a packet header

The part of `lua-websocketnetpack.c` that looks at the bytes in front of a packet: `read_size` for a websocket
frame, `get_http_header` for the handshake request, and the loops that throw away two bytes at a time while
`read_size` refuses them. A buffer with its size is the list of its valid bytes, the host is little-endian, and
an `int` result that came from a 64-bit length is that length wrapped to 32 bits.
-/

namespace SkynetServer.Websocket

def queuesize : Nat := 1024
def hashsize : Nat := 4096
def headersize : Nat := 1024
def websocketHeaderLen : Nat := 2
def websocketMaskLen : Nat := 4
def maxPacksize : Nat := 10 * 1024

/-- An unsigned number stored into an `int`. -/
def toInt (n : Nat) : Int := Int.bmod n (2 ^ 32)

/-- What a load through an unsigned pointer yields on a little-endian host. -/
def loadLE : List UInt8 → Nat
  | [] => 0
  | b :: rest => b.toNat + 256 * loadLE rest

def ntohs (x : Nat) : Nat := x % 256 * 256 + x / 256 % 256

def ntohl (x : Nat) : Nat :=
  x % 256 * 2 ^ 24 + x / 2 ^ 8 % 256 * 2 ^ 16 + x / 2 ^ 16 % 256 * 2 ^ 8 + x / 2 ^ 24 % 256

def ntoh64 (host : Nat) : Nat :=
  let low := ntohl (host &&& 0xFFFFFFFF)
  let high := ntohl ((host >>> 32) &&& 0xFFFFFFFF)
  (low <<< 32) ||| high

/-- The variables `read_size` reports into through its pointer arguments. -/
structure HeadVars where
  packHeadLength : Nat := 0
  mask : Fin 4 → UInt8 := fun _ => 0
  ismask : Bool := false
  hasunmaskSize : Nat := 0

/-- The end of `read_size`: the mask key, when there is one, follows the length field. -/
def readMask (buffer : List UInt8) (v : HeadVars) (isMask : UInt8) (offset : Nat) (packSize : Int) :
    Int × HeadVars :=
  if isMask ≠ 0 then
    if buffer.length < offset + websocketMaskLen then (-1, v)
    else (packSize, { v with
      ismask := true
      mask := fun i => buffer.getD (offset + i) 0
      packHeadLength := offset + websocketMaskLen })
  else (packSize, { v with packHeadLength := offset })

/-- `-1`: the header is not complete. `-2`: the first two bytes are thrown away. `-3`: the client closes. -/
def readSize (buffer : List UInt8) (v : HeadVars) : Int × HeadVars :=
  let size := buffer.length
  if size < 2 then (-1, v) else
  let first := buffer.getD 0 0
  let second := buffer.getD 1 0
  let fin := (first >>> 7) &&& 0x1
  let rsv1 := (first >>> 6) &&& 0x1
  let rsv2 := (first >>> 5) &&& 0x1
  let rsv3 := (first >>> 4) &&& 0x1
  let opcode := first &&& 0xf
  let isMask := (second >>> 7) &&& 0x1
  if rsv1 ≠ 0 ∨ rsv2 ≠ 0 ∨ rsv3 ≠ 0 then (-2, v) else
  if fin = 0 ∨ opcode = 0 then (-2, v) else
  if opcode = 8 then (-3, v) else
  let length := second &&& 0x7f
  if length < 0x7e then
    readMask buffer v isMask websocketHeaderLen length.toNat
  else if length = 0x7e then
    if size < websocketHeaderLen + 2 then (-1, v)
    else readMask buffer v isMask (websocketHeaderLen + 2)
      (ntohs (loadLE ((buffer.drop websocketHeaderLen).take 2)))
  else
    if size < websocketHeaderLen + 8 then (-1, v)
    else readMask buffer v isMask (websocketHeaderLen + 8)
      (toInt (ntoh64 (loadLE ((buffer.drop websocketHeaderLen).take 8))))

/-- The loop of `websocket_strnpos`, with `n` rounds left and `haystack` advanced to offset `i`. -/
def strnposFrom (needle : List UInt8) : Nat → Nat → List UInt8 → Int
  | 0, _, _ => -1
  | n + 1, i, haystack =>
    if haystack.getD 0 0 = needle.getD 0 0 ∧ haystack.take needle.length = needle then i
    else strnposFrom needle n (i + 1) (haystack.drop 1)

def websocketStrnpos (haystack needle : List UInt8) : Int :=
  if haystack.length < needle.length then -1
  else strnposFrom needle (haystack.length - needle.length + 1) 0 haystack

/-- The length of the header block up to and including its first empty line, or `-1`. -/
def getHttpHeader (buffer : List UInt8) : Int :=
  let n := websocketStrnpos buffer [13, 10, 13, 10]
  if n < 0 then n else n + 4

/-- What the code knows after it has looked at a header: the size, the reported variables and the bytes from
the header on. -/
structure Scan where
  size : Int
  vars : HeadVars
  buffer : List UInt8

/-- `while (read_size(..) is refused) { .. += WEBSOCKET_HEADER_LEN; .. }`. A buffer of fewer than two bytes
reads as `-1`, which neither loop of the source refuses. -/
def skipFrames (refused : Int → Bool) : List UInt8 → HeadVars → Scan
  | a :: b :: rest, v =>
    let (packSize, v') := readSize (a :: b :: rest) v
    if refused packSize then
      skipFrames refused rest { v' with mask := fun _ => 0, ismask := false, hasunmaskSize := 0 }
    else ⟨packSize, v', a :: b :: rest⟩
  | short, v => ⟨-1, v, short⟩

def clampSize (packSize : Int) : Int := if packSize > maxPacksize then maxPacksize else packSize

/-- How every place in the file looks at a header, in either mode. -/
def scanHeader (refused : Int → Bool) (handshake : Bool) (buffer : List UInt8) (v : HeadVars) : Scan :=
  if handshake then ⟨getHttpHeader buffer, v, buffer⟩
  else
    let s := skipFrames refused buffer v
    { s with size := clampSize s.size }

/-- The test of the loops in `filter_data_`. -/
def isInvalid (packSize : Int) : Bool := packSize == -2

/-- The test of the loop in `push_more`. -/
def isInvalidOrClose (packSize : Int) : Bool := packSize ≤ -2

/-! ### What the readings say about lengths -/

theorem readMask_packHeadLength {buffer : List UInt8} {v : HeadVars} {isMask : UInt8} {offset : Nat}
    {packSize : Int} (h : (readMask buffer v isMask offset packSize).1 ≠ -1) :
    offset ≤ (readMask buffer v isMask offset packSize).2.packHeadLength := by
  unfold readMask at h ⊢
  split
  · split
    · simp_all
    · exact Nat.le_add_right _ _
  · exact le_rfl

/-- Every way through `read_size`: one of the three answers that leave the variables alone, or a length with
the mask still to be read behind `offset` bytes. -/
theorem readSize_cases (buffer : List UInt8) (v : HeadVars) :
    readSize buffer v = (-1, v) ∨ readSize buffer v = (-2, v) ∨ readSize buffer v = (-3, v) ∨
      ∃ isMask offset packSize, 2 ≤ offset ∧ offset ≤ 10 ∧ offset ≤ buffer.length ∧
        readSize buffer v = readMask buffer v isMask offset packSize := by
  have htwo : websocketHeaderLen = 2 := rfl
  simp only [readSize]
  by_cases hsize : buffer.length < 2
  · exact .inl (if_pos hsize)
  rw [if_neg hsize]
  split
  · exact .inr (.inl rfl)
  split
  · exact .inr (.inl rfl)
  split
  · exact .inr (.inr (.inl rfl))
  split
  · exact .inr (.inr (.inr ⟨_, _, _, by decide, by decide, by omega, rfl⟩))
  split
  · by_cases hshort : buffer.length < websocketHeaderLen + 2
    · exact .inl (if_pos hshort)
    · rw [if_neg hshort]
      exact .inr (.inr (.inr ⟨_, _, _, by decide, by decide, by omega, rfl⟩))
  · by_cases hshort : buffer.length < websocketHeaderLen + 8
    · exact .inl (if_pos hshort)
    · rw [if_neg hshort]
      exact .inr (.inr (.inr ⟨_, _, _, by decide, by decide, by omega, rfl⟩))

theorem two_le_packHeadLength {buffer : List UInt8} {v : HeadVars}
    (h : 0 ≤ (readSize buffer v).1) : 2 ≤ (readSize buffer v).2.packHeadLength := by
  rcases readSize_cases buffer v with heq | heq | heq | ⟨isMask, offset, packSize, htwo, -, -, heq⟩
  · simp [heq] at h
  · simp [heq] at h
  · simp [heq] at h
  · rw [heq] at h ⊢
    exact htwo.trans (readMask_packHeadLength (by omega))

theorem readSize_of_length_lt {buffer : List UInt8} (v : HeadVars) (h : buffer.length < 2) :
    readSize buffer v = (-1, v) := by
  simp only [readSize, if_pos h]

theorem skipFrames_length_le (refused : Int → Bool) (buffer : List UInt8) (v : HeadVars) :
    (skipFrames refused buffer v).buffer.length ≤ buffer.length := by
  induction buffer, v using skipFrames.induct refused with
  | case1 a b rest v packSize v' heq hrefused ih =>
    rw [skipFrames, heq]
    simp only [hrefused, if_true]
    exact ih.trans (by simp only [List.length_cons]; omega)
  | case2 a b rest v packSize v' heq hrefused =>
    rw [skipFrames, heq]
    simp [hrefused]
  | case3 short v hshort =>
    rw [skipFrames]
    exact hshort

theorem skipFrames_reading (refused : Int → Bool) (buffer : List UInt8) (v : HeadVars) :
    ∃ v', readSize (skipFrames refused buffer v).buffer v' =
      ((skipFrames refused buffer v).size, (skipFrames refused buffer v).vars) := by
  induction buffer, v using skipFrames.induct refused with
  | case1 a b rest v packSize v' heq hrefused ih =>
    rw [skipFrames, heq]
    simpa only [hrefused, if_true] using ih
  | case2 a b rest v packSize v' heq hrefused =>
    refine ⟨v, ?_⟩
    rw [skipFrames, heq]
    simpa [hrefused] using heq
  | case3 short v hshort =>
    refine ⟨v, ?_⟩
    rw [skipFrames]
    · refine readSize_of_length_lt v ?_
      match short, hshort with
      | [], _ => simp
      | [_], _ => simp
      | a :: b :: rest, hshort => exact absurd rfl (hshort a b rest)
    · exact hshort

theorem skipFrames_not_refused (refused : Int → Bool) (hshort : refused (-1) = false) (buffer : List UInt8)
    (v : HeadVars) : refused (skipFrames refused buffer v).size = false := by
  induction buffer, v using skipFrames.induct refused with
  | case1 a b rest v packSize v' heq hrefused ih =>
    rw [skipFrames, heq]
    simpa only [hrefused, if_true] using ih
  | case2 a b rest v packSize v' heq hrefused =>
    rw [skipFrames, heq]
    simp [hrefused]
  | case3 short v hlen =>
    rw [skipFrames]
    · exact hshort
    · exact hlen

theorem strnposFrom_ge (needle : List UInt8) (n i : Nat) (haystack : List UInt8) :
    -1 ≤ strnposFrom needle n i haystack := by
  induction n generalizing i haystack with
  | zero => simp [strnposFrom]
  | succ n ih =>
    rw [strnposFrom]
    split
    · omega
    · exact ih _ _

theorem getHttpHeader_cases (buffer : List UInt8) : getHttpHeader buffer = -1 ∨ 4 ≤ getHttpHeader buffer := by
  have hge : -1 ≤ websocketStrnpos buffer [13, 10, 13, 10] := by
    unfold websocketStrnpos
    split
    · simp
    · exact strnposFrom_ge _ _ _ _
  simp only [getHttpHeader]
  split <;> omega

theorem clampSize_nonneg_iff (packSize : Int) : 0 ≤ clampSize packSize ↔ 0 ≤ packSize := by
  have : (0 : Int) < maxPacksize := by decide
  unfold clampSize
  split <;> omega

theorem clampSize_of_nonpos {packSize : Int} (h : packSize ≤ 0) : clampSize packSize = packSize := by
  unfold clampSize
  rw [if_neg]
  omega

/-- The loop of `push_more` only stops at an incomplete header or at a frame. -/
theorem scanHeader_more_cases (handshake : Bool) (buffer : List UInt8) (v : HeadVars) :
    (scanHeader isInvalidOrClose handshake buffer v).size = -1 ∨
      0 ≤ (scanHeader isInvalidOrClose handshake buffer v).size := by
  cases handshake with
  | true =>
    simp only [scanHeader, if_true]
    rcases getHttpHeader_cases buffer with h | h <;> omega
  | false =>
    simp only [scanHeader, Bool.false_eq_true, if_false]
    have hstop := skipFrames_not_refused isInvalidOrClose (by decide) buffer v
    simp only [isInvalidOrClose, decide_eq_false_iff_not, not_le] at hstop
    by_cases hneg : (skipFrames isInvalidOrClose buffer v).size = -1
    · rw [hneg]
      exact .inl (clampSize_of_nonpos (by decide))
    · exact .inr ((clampSize_nonneg_iff _).mpr (by omega))

end SkynetServer.Websocket
