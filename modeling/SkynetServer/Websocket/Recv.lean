import SkynetServer.Websocket.Frame

/-!
# The client's side of the wire

`lrecv` of `lua-clientwebsocket.c` assembles a frame with separate calls of `block_read`: two bytes of header,
the extended length, the mask key, the data. A socket is the list of the segments its bytes arrive in, and one
`recv` returns at most what is asked for from the segment in front, so that every sequence of short reads is the
list of its results. `block_read` subtracts what it got from `sz` and leaves `buffer` where it is: the second
piece of a block is written over the first. What the server packed is therefore read back exactly when every
block arrives in one piece.
-/

namespace SkynetServer.Websocket.Recv

def cacheSize : Nat := 0x1000

/-- What `lrecv` does not come back from with data. Past the end of `buffer` the C program has no defined
behaviour. -/
inductive Stop where
  | timeout
  | closed
  | overrun
deriving DecidableEq

/-- The bytes a `recv` stores at the start of the buffer it is given. -/
def store (piece buffer : List UInt8) : List UInt8 := piece ++ buffer.drop piece.length

/-- `block_read`. With nothing left to arrive `select` times out, and an empty segment is the end of the
connection. A negative `sz` asks for more than any segment holds and never comes down to zero. -/
def blockRead (buffer : List UInt8) (sz : Int) :
    List (List UInt8) → Except Stop (List UInt8 × List (List UInt8))
  | [] => if sz = 0 then .ok (buffer, []) else .error .timeout
  | segment :: segments =>
    if sz = 0 then .ok (buffer, segment :: segments)
    else if segment = [] then .error .closed
    else if 0 ≤ sz ∧ sz < segment.length then
      if buffer.length < sz then .error .overrun
      else .ok (store (segment.take sz.toNat) buffer, segment.drop sz.toNat :: segments)
    else if buffer.length < segment.length then .error .overrun
    else blockRead (store segment buffer) (sz - segment.length) segments

/-- The arrays `lrecv` keeps on its stack and never initialises. -/
structure Stack where
  buffer : List UInt8
  masks : List UInt8
  length_buffer : buffer.length = cacheSize
  length_masks : masks.length = websocketMaskLen

/-- `data_len` and what is left of the buffer and the socket once it is known. -/
def readDataLen (buffer : List UInt8) (segments : List (List UInt8)) :
    Except Stop (Int × List UInt8 × List (List UInt8)) :=
  let length := buffer.getD 1 0 &&& 0x7f
  if length < 0x7e then .ok (length.toNat, buffer, segments)
  else if length = 0x7e then
    (blockRead buffer 2 segments).bind fun (buffer, segments) =>
      .ok (ntohs (loadLE (buffer.take 2)), buffer, segments)
  else
    (blockRead buffer 8 segments).bind fun (buffer, segments) =>
      .ok (toInt (ntoh64 (loadLE (buffer.take 8))), buffer, segments)

def readMasks (isMask : UInt8) (masks : List UInt8) (segments : List (List UInt8)) :
    Except Stop (List UInt8 × List (List UInt8)) :=
  if isMask ≠ 0 then blockRead masks websocketMaskLen segments else .ok (masks, segments)

/-- The end of `lrecv`: the data, unmasked, as a Lua string of `data_len` bytes. -/
def readData (isMask : UInt8) (masks buffer : List UInt8) (dataLen : Int) (segments : List (List UInt8)) :
    Except Stop (List UInt8 × List (List UInt8)) :=
  (blockRead buffer dataLen segments).bind fun (buffer, segments) =>
    if buffer.length < dataLen then .error .overrun
    else
      let data := buffer.take dataLen.toNat
      .ok (if isMask ≠ 0 then maskBytes (fun i => masks.getD i 0) 0 data else data, segments)

/-- `lrecv` behind the two bytes of a header it does not skip. -/
def readFrame (masks buffer : List UInt8) (segments : List (List UInt8)) :
    Except Stop (List UInt8 × List (List UInt8)) :=
  let isMask := (buffer.getD 1 0 >>> 7) &&& 0x1
  (readDataLen buffer segments).bind fun (dataLen, buffer, segments) =>
    (readMasks isMask masks segments).bind fun (masks, segments) =>
      readData isMask masks buffer dataLen segments

/-- A header with a reserved bit is skipped. -/
def skipped (buffer : List UInt8) : Bool :=
  let first := buffer.getD 0 0
  (first >>> 6) &&& 0x1 ≠ 0 ∨ (first >>> 5) &&& 0x1 ≠ 0 ∨ (first >>> 4) &&& 0x1 ≠ 0

/-! ### What a block read consumes -/

theorem bind_eq_ok {ε α β : Type} {x : Except ε α} {f : α → Except ε β} {b : β} (h : x.bind f = .ok b) :
    ∃ a, x = .ok a ∧ f a = .ok b := by
  cases x with
  | error e => simp [Except.bind] at h
  | ok a => exact ⟨a, rfl, h⟩

theorem ok_bind {ε α β : Type} (a : α) (f : α → Except ε β) : (Except.ok a).bind f = f a := rfl

theorem length_store {piece buffer : List UInt8} (hfit : piece.length ≤ buffer.length) :
    (store piece buffer).length = buffer.length := by
  rw [store, List.length_append, List.length_drop]
  omega

theorem getElem?_store {piece buffer : List UInt8} {i : Nat} (hi : piece.length ≤ i) :
    (store piece buffer)[i]? = buffer[i]? := by
  rw [store, List.getElem?_append_right hi, List.getElem?_drop, Nat.add_sub_cancel' hi]

/-- What any successful block read does: it takes exactly `sz` bytes from the socket, keeps the size of the
buffer and leaves everything from `sz` on as it was. -/
structure BlockTaken (buffer : List UInt8) (sz : Int) (segments : List (List UInt8)) (buffer' : List UInt8)
    (segments' : List (List UInt8)) : Prop where
  nonneg : 0 ≤ sz
  consumed : segments'.flatten.length + sz = segments.flatten.length
  length_eq : buffer'.length = buffer.length
  untouched : ∀ i : Nat, sz ≤ i → buffer'[i]? = buffer[i]?

theorem blockTaken_zero (buffer : List UInt8) (segments : List (List UInt8)) :
    BlockTaken buffer 0 segments buffer segments :=
  ⟨le_rfl, by simp, rfl, fun _ _ => rfl⟩

theorem blockTaken_of_blockRead {segments : List (List UInt8)} {buffer : List UInt8} {sz : Int}
    {buffer' : List UInt8} {segments' : List (List UInt8)}
    (h : blockRead buffer sz segments = .ok (buffer', segments')) :
    BlockTaken buffer sz segments buffer' segments' := by
  induction segments generalizing buffer sz with
  | nil =>
    rw [blockRead] at h
    split at h
    · next hzero =>
      subst hzero
      cases h
      exact blockTaken_zero _ _
    · cases h
  | cons segment segments ih =>
    rw [blockRead] at h
    split at h
    · next hzero =>
      subst hzero
      cases h
      exact blockTaken_zero _ _
    split at h
    · cases h
    split at h
    · next hwithin =>
      obtain ⟨hnonneg, hlt⟩ := hwithin
      split at h
      · cases h
      · next hroom =>
        cases h
        have hlen : (segment.take sz.toNat).length = sz.toNat := by
          rw [List.length_take]
          omega
        refine ⟨hnonneg, ?_, length_store (by omega), fun i hi => getElem?_store (by omega)⟩
        simp only [List.flatten_cons, List.length_append, List.length_drop]
        omega
    · next hbeyond =>
      split at h
      · cases h
      · next hroom =>
        have htaken := ih h
        have hstore : (store segment buffer).length = buffer.length := length_store (by omega)
        have hpos := htaken.nonneg
        have hconsumed := htaken.consumed
        refine ⟨by omega, ?_, htaken.length_eq.trans hstore, ?_⟩
        · rw [List.flatten_cons, List.length_append]
          omega
        · intro i hi
          rw [htaken.untouched i (by omega), getElem?_store (by omega)]

/-- `lrecv`, called with what its stack happens to hold. -/
def lrecv (masks buffer : List UInt8) (segments : List (List UInt8)) :
    Except Stop (List UInt8 × List (List UInt8)) :=
  match _ : blockRead buffer websocketHeaderLen segments with
  | .error stop => .error stop
  | .ok (buffer', segments') =>
    if skipped buffer' then lrecv masks buffer' segments' else readFrame masks buffer' segments'
termination_by segments.flatten.length
decreasing_by
  rename_i hread _
  have hconsumed := (blockTaken_of_blockRead hread).consumed
  simp only [websocketHeaderLen] at hconsumed
  omega

/-- Successive calls of `lrecv`. -/
def recvAll : List Stack → List (List UInt8) → Except Stop (List (List UInt8))
  | [], _ => .ok []
  | stack :: later, segments =>
    (lrecv stack.masks stack.buffer segments).bind fun (data, segments) =>
      (recvAll later segments).bind fun rest => .ok (data :: rest)

theorem lrecv_of_blockRead {masks buffer buffer' : List UInt8} {segments segments' : List (List UInt8)}
    (h : blockRead buffer websocketHeaderLen segments = .ok (buffer', segments')) :
    lrecv masks buffer segments =
      if skipped buffer' then lrecv masks buffer' segments' else readFrame masks buffer' segments' := by
  rw [lrecv]
  split
  · next heq => rw [h] at heq; cases heq
  · next heq => rw [h] at heq; cases heq; rfl

theorem exists_blockRead_of_lrecv {masks buffer data : List UInt8} {segments segments' : List (List UInt8)}
    (h : lrecv masks buffer segments = .ok (data, segments')) :
    ∃ buffer₁ segments₁, blockRead buffer websocketHeaderLen segments = .ok (buffer₁, segments₁) ∧
      (if skipped buffer₁ then lrecv masks buffer₁ segments₁ else readFrame masks buffer₁ segments₁) =
        .ok (data, segments') := by
  rw [lrecv] at h
  split at h
  · cases h
  · next buffer₁ segments₁ hread => exact ⟨buffer₁, segments₁, hread, h⟩

/-! ### Blocks in one piece -/

/-- What is left of the segments behind a block of `n` bytes, if one segment holds all of it. -/
def takeBlock (n : Nat) : List (List UInt8) → Option (List (List UInt8))
  | [] => if n = 0 then some [] else none
  | segment :: segments =>
    if n = 0 then some (segment :: segments)
    else if n < segment.length then some (segment.drop n :: segments)
    else if n = segment.length then some segments
    else none

theorem takeBlock_zero (segments : List (List UInt8)) : takeBlock 0 segments = some segments := by
  cases segments <;> rfl

theorem takeBlock_spec {n : Nat} {segments segments' : List (List UInt8)}
    (h : takeBlock n segments = some segments') (hne : [] ∉ segments) :
    segments'.flatten = segments.flatten.drop n ∧ [] ∉ segments' := by
  cases segments with
  | nil =>
    by_cases hzero : n = 0
    · rw [takeBlock, if_pos hzero] at h
      cases h
      simp
    · rw [takeBlock, if_neg hzero] at h
      cases h
  | cons segment segments =>
    rw [List.mem_cons, not_or] at hne
    rw [takeBlock] at h
    split at h
    · next hzero =>
      cases h
      simp [hzero, hne.1, hne.2]
    split at h
    · next hlt =>
      cases h
      refine ⟨?_, ?_⟩
      · rw [List.flatten_cons, List.flatten_cons, List.drop_append_of_le_length (by omega)]
      · rw [List.mem_cons, not_or]
        refine ⟨fun hnil => ?_, hne.2⟩
        have := List.drop_eq_nil_iff.mp hnil.symm
        omega
    split at h
    · next heq =>
      cases h
      exact ⟨by simp [heq], hne.2⟩
    · cases h

theorem blockRead_of_takeBlock {n : Nat} {buffer : List UInt8} {segments segments' : List (List UInt8)}
    (h : takeBlock n segments = some segments') (hne : [] ∉ segments) (hroom : n ≤ buffer.length) :
    blockRead buffer n segments = .ok (store (segments.flatten.take n) buffer, segments') := by
  by_cases hzero : n = 0
  · subst hzero
    rw [takeBlock_zero] at h
    cases h
    cases segments <;> simp [blockRead, store]
  · cases segments with
    | nil => simp [takeBlock, hzero] at h
    | cons segment segments =>
      rw [List.mem_cons, not_or] at hne
      rw [takeBlock, if_neg hzero] at h
      rw [blockRead, if_neg (by omega), if_neg (Ne.symm hne.1)]
      split at h
      · next hlt =>
        cases h
        rw [if_pos (by omega), if_neg (by omega), List.flatten_cons, Int.toNat_natCast,
          List.take_append_of_le_length (by omega)]
      split at h
      · next heq =>
        cases h
        rw [if_neg (by omega), if_neg (by omega), heq, Int.sub_self, List.flatten_cons, List.take_left]
        cases segments' <;> rfl
      · cases h

theorem exists_cut_of_takeBlock {n : Nat} {segments : List (List UInt8)} (h : takeBlock n segments = none)
    (hne : [] ∉ segments) (hlen : n ≤ segments.flatten.length) :
    ∃ piece later, segments = piece :: later ∧ piece ≠ [] ∧ piece.length < n := by
  cases segments with
  | nil =>
    have hzero : n = 0 := by simpa using hlen
    rw [hzero, takeBlock_zero] at h
    cases h
  | cons segment segments =>
    rw [List.mem_cons, not_or] at hne
    refine ⟨segment, segments, rfl, Ne.symm hne.1, ?_⟩
    by_contra hlong
    rw [takeBlock] at h
    by_cases hzero : n = 0
    · simp [hzero] at h
    · by_cases hlt : n < segment.length
      · simp [hzero, hlt] at h
      · rw [if_neg hzero, if_neg hlt, if_pos (by omega)] at h
        cases h

theorem blockRead_cut {n : Nat} {buffer piece : List UInt8} (later : List (List UInt8)) (hpiece : piece ≠ [])
    (hcut : piece.length < n) (hroom : n ≤ buffer.length) :
    blockRead buffer n (piece :: later) = blockRead (store piece buffer) (n - piece.length : Nat) later := by
  rw [blockRead, if_neg (by omega), if_neg hpiece, if_neg (by omega), if_neg (by omega), Nat.cast_sub (by omega)]

theorem exists_takeBlock_one {segments : List (List UInt8)} {b : UInt8} {rest : List UInt8}
    (hne : [] ∉ segments) (hflat : segments.flatten = b :: rest) :
    ∃ segments', takeBlock 1 segments = some segments' := by
  refine Option.ne_none_iff_exists'.mp fun hnone => ?_
  obtain ⟨piece, later, -, hpiece, hshort⟩ := exists_cut_of_takeBlock hnone hne (by simp [hflat])
  exact hpiece (List.eq_nil_of_length_eq_zero (by omega))

/-- Two bytes that come one at a time leave the second of them in front, and behind it what was there before. -/
theorem blockRead_two_cut {buffer : List UInt8} {segments : List (List UInt8)} {x y : UInt8} {rest : List UInt8}
    (h : takeBlock 2 segments = none) (hne : [] ∉ segments) (hflat : segments.flatten = x :: y :: rest)
    (hroom : 2 ≤ buffer.length) :
    ∃ segments', (takeBlock 1 segments).bind (takeBlock 1) = some segments' ∧ [] ∉ segments' ∧
      segments'.flatten = rest ∧ blockRead buffer 2 segments = .ok (y :: buffer.drop 1, segments') := by
  obtain ⟨piece, later, rfl, hpiece, hcut⟩ := exists_cut_of_takeBlock h hne (by simp [hflat])
  have hone : piece.length = 1 := by
    have := List.length_pos_iff.mpr hpiece
    omega
  obtain ⟨b, rfl⟩ := List.length_eq_one_iff.mp hone
  rw [List.flatten_cons, List.cons_append, List.nil_append, List.cons.injEq] at hflat
  have hlater : [] ∉ later := fun hmem => hne (List.mem_cons_of_mem _ hmem)
  obtain ⟨segments', htake⟩ := exists_takeBlock_one hlater hflat.2
  obtain ⟨hrest, hne'⟩ := takeBlock_spec htake hlater
  refine ⟨segments', ?_, hne', by rw [hrest, hflat.2]; rfl, ?_⟩
  · simpa [takeBlock] using htake
  · have hkeep : (store [b] buffer).length = buffer.length := length_store (by rw [hone]; omega)
    have hread : blockRead (store [b] buffer) (1 : Nat) later = _ :=
      blockRead_of_takeBlock htake hlater (by omega)
    have hcutread := blockRead_cut later hpiece hcut hroom
    rw [hone] at hcutread
    rw [show (2 : Int) = (2 : Nat) from rfl, hcutread, hread, hflat.2]
    simp [store]

/-! ### Deliveries -/

/-- The bytes between the two of the header and the data. -/
def fieldSize (n : Nat) : Nat := if n < 126 then 0 else if n < 65536 then 2 else 8

/-- The data in one piece. Of the data `02 02` the two bytes may also come one at a time: the second overwrites
the first, and the length byte of the header still stands behind it. -/
def takeData (payload : List UInt8) (segments : List (List UInt8)) : Option (List (List UInt8)) :=
  if payload = [2, 2] then (takeBlock 1 segments).bind (takeBlock 1) else takeBlock payload.length segments

/-- A frame of `lpack` whose header, extended length and data each come in one piece. -/
def takeFrame (payload : List UInt8) (segments : List (List UInt8)) : Option (List (List UInt8)) :=
  (takeBlock websocketHeaderLen segments).bind fun segments =>
    (takeBlock (fieldSize payload.length) segments).bind (takeData payload)

/-- No `recv` ends inside a block. -/
def Unbroken : List (List UInt8) → List (List UInt8) → Prop
  | [], _ => True
  | payload :: payloads, segments => ∃ segments', takeFrame payload segments = some segments' ∧
      Unbroken payloads segments'

/-- What the server packed, as it arrives at the client. -/
structure Delivery where
  payloads : List (List UInt8)
  segments : List (List UInt8)
  payload_le : ∀ payload ∈ payloads, payload.length ≤ cacheSize
  segment_ne_nil : [] ∉ segments
  flatten_segments : segments.flatten = payloads.flatMap lpack

/-- Successive `lrecv` calls return the payloads, whatever their stacks hold. -/
def Delivery.Received (d : Delivery) : Prop :=
  ∀ calls : List Stack, calls.length = d.payloads.length → recvAll calls d.segments = .ok d.payloads

/-! ### What a call consumes -/

theorem length_lpack (msg : List UInt8) : (lpack msg).length = 2 + fieldSize msg.length + msg.length := by
  simp only [lpack, fieldSize]
  split
  · simp only [List.length_cons]
    omega
  · split <;> simp only [List.length_cons] <;> omega

theorem fieldSize_le_eight (n : Nat) : fieldSize n ≤ 8 := by
  unfold fieldSize
  split
  · omega
  · split <;> omega

theorem fieldSize_le_two {n : Nat} (hn : n < 65536) : fieldSize n ≤ 2 := by
  rw [fieldSize, if_pos hn]
  split <;> omega

theorem readDataLen_consumed {buffer buffer' : List UInt8} {segments segments' : List (List UInt8)} {dataLen : Int}
    (h : readDataLen buffer segments = .ok (dataLen, buffer', segments')) :
    segments'.flatten.length + fieldSize dataLen.toNat ≤ segments.flatten.length := by
  rw [readDataLen] at h
  split at h
  · next hsmall =>
    have hlt : (buffer.getD 1 0 &&& 0x7f).toNat < 126 := UInt8.lt_iff_toNat_lt.mp hsmall
    simp only [Except.ok.injEq, Prod.mk.injEq] at h
    obtain ⟨rfl, -, rfl⟩ := h
    rw [Int.toNat_natCast, fieldSize, if_pos hlt, Nat.add_zero]
  split at h
  · obtain ⟨⟨b, s⟩, hread, hok⟩ := bind_eq_ok h
    have hconsumed := (blockTaken_of_blockRead hread).consumed
    simp only [Except.ok.injEq, Prod.mk.injEq] at hok
    obtain ⟨rfl, -, rfl⟩ := hok
    have hlen : ntohs (loadLE (b.take 2)) < 65536 := by
      unfold ntohs
      omega
    have hfield := fieldSize_le_two hlen
    rw [Int.toNat_natCast]
    omega
  · obtain ⟨⟨b, s⟩, hread, hok⟩ := bind_eq_ok h
    have hconsumed := (blockTaken_of_blockRead hread).consumed
    have hfield := fieldSize_le_eight dataLen.toNat
    simp only [Except.ok.injEq, Prod.mk.injEq] at hok
    obtain ⟨-, -, rfl⟩ := hok
    omega

theorem readMasks_consumed {isMask : UInt8} {masks masks' : List UInt8} {segments segments' : List (List UInt8)}
    (h : readMasks isMask masks segments = .ok (masks', segments')) :
    segments'.flatten.length ≤ segments.flatten.length := by
  rw [readMasks] at h
  split at h
  · have hconsumed := (blockTaken_of_blockRead h).consumed
    omega
  · cases h
    exact le_rfl

theorem readData_consumed {isMask : UInt8} {masks buffer data : List UInt8} {dataLen : Int}
    {segments segments' : List (List UInt8)}
    (h : readData isMask masks buffer dataLen segments = .ok (data, segments')) :
    dataLen = data.length ∧ segments'.flatten.length + data.length = segments.flatten.length := by
  obtain ⟨⟨b, s⟩, hread, hok⟩ := bind_eq_ok h
  have hnonneg := (blockTaken_of_blockRead hread).nonneg
  have hconsumed := (blockTaken_of_blockRead hread).consumed
  simp only at hok
  split at hok
  · cases hok
  · next hroom =>
    cases hok
    have hlen : (b.take dataLen.toNat).length = dataLen.toNat := by
      rw [List.length_take]
      omega
    have hdata : (if isMask ≠ 0 then maskBytes (fun i => masks.getD i 0) 0 (b.take dataLen.toNat)
        else b.take dataLen.toNat).length = dataLen.toNat := by
      split
      · rw [maskBytes, List.length_mapIdx, hlen]
      · exact hlen
    omega

theorem readFrame_consumed {masks buffer data : List UInt8} {segments segments' : List (List UInt8)}
    (h : readFrame masks buffer segments = .ok (data, segments')) :
    segments'.flatten.length + (fieldSize data.length + data.length) ≤ segments.flatten.length := by
  obtain ⟨⟨dataLen, b, s⟩, hlen, h⟩ := bind_eq_ok h
  obtain ⟨⟨m, s'⟩, hmasks, h⟩ := bind_eq_ok h
  have hlen := readDataLen_consumed hlen
  have hmasks := readMasks_consumed hmasks
  obtain ⟨rfl, hdata⟩ := readData_consumed h
  rw [Int.toNat_natCast] at hlen
  omega

theorem lrecv_consumed {masks buffer data : List UInt8} {segments segments' : List (List UInt8)}
    (h : lrecv masks buffer segments = .ok (data, segments')) :
    segments'.flatten.length + (lpack data).length ≤ segments.flatten.length := by
  induction hn : segments.flatten.length using Nat.strong_induction_on generalizing buffer segments with
  | _ n ih =>
    obtain ⟨buffer₁, segments₁, hread, hrest⟩ := exists_blockRead_of_lrecv h
    have hconsumed := (blockTaken_of_blockRead hread).consumed
    simp only [websocketHeaderLen] at hconsumed
    split at hrest
    · have := ih _ (by omega) hrest rfl
      omega
    · have := readFrame_consumed hrest
      rw [length_lpack]
      omega

theorem recvAll_consumed {calls : List Stack} {segments payloads : List (List UInt8)}
    (h : recvAll calls segments = .ok payloads) : (payloads.flatMap lpack).length ≤ segments.flatten.length := by
  induction calls generalizing segments payloads with
  | nil =>
    rw [recvAll] at h
    cases h
    simp
  | cons call calls ih =>
    obtain ⟨⟨data, segments'⟩, hrecv, h⟩ := bind_eq_ok h
    obtain ⟨rest, hrest, h⟩ := bind_eq_ok h
    cases h
    have hfirst := lrecv_consumed hrecv
    have hlater := ih hrest
    rw [List.flatMap_cons, List.length_append]
    omega

/-! ### One frame -/

theorem lpack_of_lt {msg : List UInt8} (h : msg.length < 126) :
    lpack msg = 130 :: UInt8.ofNat msg.length :: msg := by
  have hbyte : frameSetLength msg.length 0 = UInt8.ofNat msg.length := by
    apply UInt8.toNat_inj.mp
    rw [frameSetLength_toNat, UInt8.toNat_ofNat', pow_zero, Nat.div_one]
  simp only [lpack, if_pos h, hbyte]
  rfl

theorem lpack_of_sixteen {msg : List UInt8} (h : ¬ msg.length < 126) (hlt : msg.length < 65536) :
    lpack msg = 130 :: 126 :: frameSetLength msg.length 1 :: frameSetLength msg.length 0 :: msg := by
  simp only [lpack, if_neg h, if_pos hlt]
  rfl

theorem lengthByte_bits {b : UInt8} (hb : b < 126) : (b >>> 7) &&& 0x1 = 0 ∧ b &&& 0x7f = b := by
  have hlt : b.toNat < 126 := UInt8.lt_iff_toNat_lt.mp hb
  simpa using secondByte ⟨b.toNat, by omega⟩ false

theorem readFrame_of_small {masks buffer : List UInt8} {b : UInt8} (segments : List (List UInt8)) (hb : b < 126)
    (hget : buffer.getD 1 0 = b) :
    readFrame masks buffer segments = readData 0 masks buffer b.toNat segments := by
  obtain ⟨hmask, hlength⟩ := lengthByte_bits hb
  have hnot : ¬ ((0 : UInt8) ≠ 0) := by decide
  simp only [readFrame, readDataLen, readMasks, hget, hmask, hlength, if_pos hb, if_neg hnot, Except.bind]

theorem readFrame_of_sixteen {masks buffer : List UInt8} (segments : List (List UInt8))
    (hget : buffer.getD 1 0 = 126) :
    readFrame masks buffer segments = (blockRead buffer 2 segments).bind fun read =>
      readData 0 masks read.1 (ntohs (loadLE (read.1.take 2))) read.2 := by
  have hmask : ((126 : UInt8) >>> 7) &&& 0x1 = 0 := by decide
  have hlength : (126 : UInt8) &&& 0x7f = 126 := by decide
  have hsmall : ¬ (126 : UInt8) < 0x7e := by decide
  have hnot : ¬ ((0 : UInt8) ≠ 0) := by decide
  simp only [readFrame, readDataLen, readMasks, hget, hmask, hlength, if_neg hsmall, if_true, if_neg hnot]
  cases blockRead buffer 2 segments <;> rfl

theorem lrecv_of_header {masks buffer : List UInt8} {segments segments' : List (List UInt8)} {code : UInt8}
    {rest : List UInt8} (h : takeBlock websocketHeaderLen segments = some segments') (hne : [] ∉ segments)
    (hflat : segments.flatten = 130 :: code :: rest) (hroom : 2 ≤ buffer.length) :
    lrecv masks buffer segments = readFrame masks (130 :: code :: buffer.drop 2) segments' ∧
      segments'.flatten = rest ∧ [] ∉ segments' := by
  obtain ⟨hrest, hne'⟩ := takeBlock_spec h hne
  have hread := blockRead_of_takeBlock h hne hroom
  rw [hflat] at hread hrest
  refine ⟨?_, hrest, hne'⟩
  have hstore : store ((130 :: code :: rest).take websocketHeaderLen) buffer = 130 :: code :: buffer.drop 2 := rfl
  have hkept : skipped (130 :: code :: buffer.drop 2) = false := by
    rw [skipped, List.getD_cons_zero]
    decide
  rw [lrecv_of_blockRead hread, hstore, hkept, if_neg Bool.false_ne_true]

/-- Once the length is known the buffer holds two bytes of the frame, and the rest of it is what the call found
there. For two bytes of data the second of them is the length. -/
theorem lrecv_of_lengthRead {payload rest : List UInt8} {segments segments₁ segments₂ : List (List UInt8)}
    (hle : payload.length ≤ cacheSize) (hne : [] ∉ segments) (hflat : segments.flatten = lpack payload ++ rest)
    (hhead : takeBlock websocketHeaderLen segments = some segments₁)
    (hfield : takeBlock (fieldSize payload.length) segments₁ = some segments₂) :
    [] ∉ segments₂ ∧ segments₂.flatten = payload ++ rest ∧ ∃ x y : UInt8, (payload.length = 2 → y = 2) ∧
      ∀ call : Stack, lrecv call.masks call.buffer segments =
        readData 0 call.masks (x :: y :: call.buffer.drop 2) payload.length segments₂ := by
  have hroom : ∀ call : Stack, 2 ≤ call.buffer.length := fun call => by
    rw [call.length_buffer]
    decide
  unfold cacheSize at hle
  by_cases hsmall : payload.length < 126
  · rw [fieldSize, if_pos hsmall, takeBlock_zero] at hfield
    cases hfield
    rw [lpack_of_lt hsmall] at hflat
    obtain ⟨hflat₁, hne₁⟩ := takeBlock_spec hhead hne
    rw [hflat] at hflat₁
    refine ⟨hne₁, hflat₁, 130, UInt8.ofNat payload.length, fun h => by rw [h]; rfl, fun call => ?_⟩
    have hbyte : UInt8.ofNat payload.length < 126 := (ofNat_lt_iff (by omega) (by decide)).mpr hsmall
    have hnat : (UInt8.ofNat payload.length).toNat = payload.length := by
      rw [UInt8.toNat_ofNat', Nat.mod_eq_of_lt (by norm_num; omega)]
    rw [(lrecv_of_header hhead hne hflat (hroom call)).1, readFrame_of_small _ hbyte rfl, hnat]
  · have hlt : payload.length < 65536 := by omega
    rw [fieldSize, if_neg hsmall, if_pos hlt] at hfield
    rw [lpack_of_sixteen hsmall hlt] at hflat
    obtain ⟨hflat₁, hne₁⟩ := takeBlock_spec hhead hne
    obtain ⟨hflat₂, hne₂⟩ := takeBlock_spec hfield hne₁
    rw [hflat] at hflat₁
    rw [hflat₁] at hflat₂
    refine ⟨hne₂, hflat₂, frameSetLength payload.length 1, frameSetLength payload.length 0,
      fun h => absurd (h ▸ hsmall) (by decide), fun call => ?_⟩
    have hread : blockRead (130 :: 126 :: call.buffer.drop 2) (2 : Nat) segments₁ = _ :=
      blockRead_of_takeBlock hfield hne₁ (by simp)
    rw [hflat₁] at hread
    rw [(lrecv_of_header hhead hne hflat (hroom call)).1, readFrame_of_sixteen _ rfl,
      show (2 : Int) = (2 : Nat) from rfl, hread, ok_bind]
    change readData 0 call.masks (_ :: _ :: call.buffer.drop 2)
      (ntohs (loadLE [frameSetLength payload.length 1, frameSetLength payload.length 0]) : Nat) segments₂ = _
    rw [ntohs_frameSetLength hlt]

theorem readData_whole {masks buffer payload rest : List UInt8} {segments segments' : List (List UInt8)}
    (h : takeBlock payload.length segments = some segments') (hne : [] ∉ segments)
    (hflat : segments.flatten = payload ++ rest) (hroom : payload.length ≤ buffer.length) :
    readData 0 masks buffer payload.length segments = .ok (payload, segments') := by
  have hstore : (store payload buffer).take payload.length = payload := by
    rw [store, List.take_left]
  have hlong : ¬ ((store payload buffer).length : Int) < payload.length := by
    rw [length_store hroom]
    omega
  rw [readData, blockRead_of_takeBlock h hne hroom, hflat, List.take_left]
  simp only [Except.bind, if_neg hlong, Int.toNat_natCast, hstore, ne_eq, not_true_eq_false, if_false]

theorem readData_cut {masks buffer payload data : List UInt8} {segments segments' : List (List UInt8)}
    (h : takeBlock payload.length segments = none) (hne : [] ∉ segments)
    (hlen : payload.length ≤ segments.flatten.length) (hroom : payload.length ≤ buffer.length)
    (hread : readData 0 masks buffer payload.length segments = .ok (data, segments')) :
    2 ≤ payload.length ∧ data[payload.length - 1]? = buffer[payload.length - 1]? := by
  obtain ⟨piece, later, rfl, hpiece, hcut⟩ := exists_cut_of_takeBlock h hne hlen
  have hpos := List.length_pos_iff.mpr hpiece
  obtain ⟨⟨b, s⟩, hblock, hok⟩ := bind_eq_ok hread
  rw [blockRead_cut later hpiece hcut hroom] at hblock
  have huntouched := (blockTaken_of_blockRead hblock).untouched (payload.length - 1) (by omega)
  rw [getElem?_store (by omega)] at huntouched
  simp only at hok
  split at hok
  · cases hok
  · simp only [ne_eq, not_true_eq_false, if_false, Except.ok.injEq, Prod.mk.injEq, Int.toNat_natCast] at hok
    obtain ⟨rfl, -⟩ := hok
    refine ⟨by omega, ?_⟩
    rw [List.getElem?_take_of_lt (by omega), huntouched]

theorem takeBlock_one_one {segments segments' : List (List UInt8)} (h : takeBlock 2 segments = some segments') :
    (takeBlock 1 segments).bind (takeBlock 1) = some segments' := by
  cases segments with
  | nil => simp [takeBlock] at h
  | cons segment segments =>
    simp only [takeBlock, OfNat.ofNat_ne_zero, if_false] at h
    have hlong : 1 < segment.length := by
      by_contra hshort
      rw [if_neg (by omega), if_neg (by omega)] at h
      cases h
    simp only [takeBlock, Nat.one_ne_zero, if_false, if_pos hlong, Option.bind_some, List.length_drop,
      List.drop_drop]
    split at h
    · next hlt => rw [if_pos (by omega), h]
    · rw [if_neg (by omega), if_pos (by omega)]
      split at h
      · exact h
      · cases h

theorem exists_takeBlock_one_one {segments : List (List UInt8)} {x y : UInt8} {rest : List UInt8}
    (hne : [] ∉ segments) (hflat : segments.flatten = x :: y :: rest) :
    ∃ segments', (takeBlock 1 segments).bind (takeBlock 1) = some segments' := by
  obtain ⟨segments₁, hfirst⟩ := exists_takeBlock_one hne hflat
  obtain ⟨hflat₁, hne₁⟩ := takeBlock_spec hfirst hne
  rw [hflat] at hflat₁
  rw [hfirst]
  exact exists_takeBlock_one hne₁ hflat₁

theorem readData_two_cut {masks buffer rest : List UInt8} {segments : List (List UInt8)} {x y a b : UInt8}
    (h : takeBlock 2 segments = none) (hne : [] ∉ segments) (hflat : segments.flatten = a :: b :: rest) :
    ∃ segments', (takeBlock 1 segments).bind (takeBlock 1) = some segments' ∧
      readData 0 masks (x :: y :: buffer) 2 segments = .ok ([b, y], segments') := by
  obtain ⟨left, hleft, -, -, hread⟩ := blockRead_two_cut h hne hflat
    (show 2 ≤ (x :: y :: buffer).length from Nat.le_add_left 2 _)
  have hlong : ¬ ((b :: (x :: y :: buffer).drop 1).length : Int) < 2 := by
    simp only [List.drop_succ_cons, List.drop_zero, List.length_cons]
    omega
  refine ⟨left, hleft, ?_⟩
  rw [readData, hread]
  simp only [Except.bind, if_neg hlong, ne_eq, not_true_eq_false, if_false]
  rfl

theorem readData_twoTwo {masks buffer rest : List UInt8} {segments segments' : List (List UInt8)} {x : UInt8}
    (h : (takeBlock 1 segments).bind (takeBlock 1) = some segments') (hne : [] ∉ segments)
    (hflat : segments.flatten = [2, 2] ++ rest) :
    readData 0 masks (x :: 2 :: buffer) 2 segments = .ok ([2, 2], segments') := by
  have hroom : 2 ≤ (x :: 2 :: buffer).length := by simp
  cases hwhole : takeBlock 2 segments with
  | some left =>
    have hleft := takeBlock_one_one hwhole
    rw [h] at hleft
    cases hleft
    exact @readData_whole masks _ [2, 2] rest _ _ hwhole hne hflat hroom
  | none =>
    obtain ⟨left, hleft, hread⟩ := readData_two_cut hwhole hne hflat
    rw [h] at hleft
    cases hleft
    exact hread

/-- A frame whose blocks come in one piece is returned, and nothing behind it is touched. -/
theorem lrecv_of_takeFrame {payload rest : List UInt8} {segments segments' : List (List UInt8)}
    (h : takeFrame payload segments = some segments') (hle : payload.length ≤ cacheSize) (hne : [] ∉ segments)
    (hflat : segments.flatten = lpack payload ++ rest) :
    [] ∉ segments' ∧ segments'.flatten = rest ∧
      ∀ call : Stack, lrecv call.masks call.buffer segments = .ok (payload, segments') := by
  rw [takeFrame, Option.bind_eq_some_iff] at h
  obtain ⟨segments₁, hhead, h⟩ := h
  rw [Option.bind_eq_some_iff] at h
  obtain ⟨segments₂, hfield, hdata⟩ := h
  obtain ⟨hne₂, hflat₂, x, y, htwo, hrecv⟩ := lrecv_of_lengthRead hle hne hflat hhead hfield
  rw [takeData] at hdata
  split at hdata
  · next hpayload =>
    subst hpayload
    rw [htwo rfl] at hrecv
    obtain ⟨a, ha, hb⟩ := Option.bind_eq_some_iff.mp hdata
    obtain ⟨hflatA, hneA⟩ := takeBlock_spec ha hne₂
    obtain ⟨hflatB, hneB⟩ := takeBlock_spec hb hneA
    rw [hflatA, hflat₂] at hflatB
    exact ⟨hneB, hflatB, fun call => (hrecv call).trans (readData_twoTwo hdata hne₂ hflat₂)⟩
  · obtain ⟨hflat', hne'⟩ := takeBlock_spec hdata hne₂
    rw [hflat₂, List.drop_left] at hflat'
    refine ⟨hne', hflat', fun call => (hrecv call).trans (readData_whole hdata hne₂ hflat₂ ?_)⟩
    have := call.length_buffer
    simp only [List.length_cons, List.length_drop]
    omega

/-! ### A frame that is returned came in one piece -/

/-- A stack on which every byte is `b`. -/
def Stack.fill (b : UInt8) : Stack where
  buffer := List.replicate cacheSize b
  masks := List.replicate websocketMaskLen b
  length_buffer := List.length_replicate
  length_masks := List.length_replicate

theorem Stack.getElem?_fill {b : UInt8} {i : Nat} (hi : i < cacheSize) : (Stack.fill b).buffer[i]? = some b := by
  rw [Stack.fill, List.getElem?_replicate, if_pos hi]

theorem exists_lpack_eq (msg : List UInt8) : ∃ code body, lpack msg = 130 :: code :: body := by
  simp only [lpack]
  split
  · exact ⟨_, _, rfl⟩
  · split <;> exact ⟨_, _, rfl⟩

section Returned

variable {payload rest : List UInt8} {segments : List (List UInt8)} (hle : payload.length ≤ cacheSize)
  (hne : [] ∉ segments) (hflat : segments.flatten = lpack payload ++ rest)
  (hreturned : ∀ call : Stack, ∃ segments', lrecv call.masks call.buffer segments = .ok (payload, segments') ∧
    rest.length ≤ segments'.flatten.length)

include hne hflat hreturned

/-- Of a header in two pieces only the second byte is left, in the place of the first. Either it has a reserved
bit, and two bytes are lost with it, or the length is what the stack happened to hold. -/
theorem exists_takeBlock_header : ∃ segments₁, takeBlock websocketHeaderLen segments = some segments₁ := by
  refine Option.ne_none_iff_exists'.mp fun hcut => ?_
  obtain ⟨code, body, hpack⟩ := exists_lpack_eq payload
  have hcount := length_lpack payload
  have hlength : ∀ b : UInt8, b < 126 → payload.length = b.toNat := by
    intro b hb
    obtain ⟨segments', hrecv, hrest⟩ := hreturned (.fill b)
    rw [hpack, List.cons_append, List.cons_append] at hflat
    obtain ⟨segments₁, -, -, hflat₁, hread⟩ := blockRead_two_cut hcut hne hflat
      (by rw [(Stack.fill b).length_buffer]; decide)
    rw [lrecv_of_blockRead hread] at hrecv
    split at hrecv
    · have hconsumed := lrecv_consumed hrecv
      rw [hflat₁, List.length_append, hpack, List.length_cons, List.length_cons] at hconsumed
      omega
    · have hget : (code :: (Stack.fill b).buffer.drop 1).getD 1 0 = b := by
        rw [List.getD_cons_succ, List.getD_eq_getElem?_getD, List.getElem?_drop, Stack.getElem?_fill (by decide)]
        rfl
      rw [readFrame_of_small _ hb hget] at hrecv
      exact_mod_cast (readData_consumed hrecv).1.symm
  have hzero := hlength 0 (by decide)
  have hone := hlength 1 (by decide)
  rw [hzero] at hone
  exact absurd hone (by decide)

include hle

/-- Of an extended length in two pieces the low byte is left, in the place of the high one. -/
theorem exists_takeBlock_field {segments₁ : List (List UInt8)}
    (hhead : takeBlock websocketHeaderLen segments = some segments₁) :
    ∃ segments₂, takeBlock (fieldSize payload.length) segments₁ = some segments₂ := by
  unfold cacheSize at hle
  by_cases hsmall : payload.length < 126
  · rw [fieldSize, if_pos hsmall]
    exact ⟨_, takeBlock_zero _⟩
  have hlt : payload.length < 65536 := by omega
  rw [fieldSize, if_neg hsmall, if_pos hlt]
  refine Option.ne_none_iff_exists'.mp fun hcut => ?_
  have hcall := hreturned (.fill 0)
  generalize Stack.fill 0 = call at hcall
  obtain ⟨segments', hrecv, -⟩ := hcall
  rw [lpack_of_sixteen hsmall hlt] at hflat
  obtain ⟨heq, hflat₁, hne₁⟩ := lrecv_of_header hhead hne hflat (by rw [call.length_buffer]; decide)
  rw [heq, readFrame_of_sixteen _ rfl] at hrecv
  have hroom : 2 ≤ (130 :: 126 :: call.buffer.drop 2).length := Nat.le_add_left 2 _
  obtain ⟨left, -, -, -, hread⟩ := blockRead_two_cut hcut hne₁ hflat₁ hroom
  rw [hread, ok_bind] at hrecv
  have hbytes : (frameSetLength payload.length 0 :: (130 :: 126 :: call.buffer.drop 2).drop 1).take 2 =
      [frameSetLength payload.length 0, 126] := rfl
  have hlen := (readData_consumed hrecv).1
  rw [hbytes, ntohs_load, frameSetLength_toNat, show (126 : UInt8).toNat = 126 from rfl] at hlen
  omega

/-- Of data in several pieces the last byte is what the buffer held before, which is the stack's own except
behind a single byte. -/
theorem exists_takeFrame : ∃ segments', takeFrame payload segments = some segments' := by
  obtain ⟨segments₁, hhead⟩ := exists_takeBlock_header hne hflat hreturned
  obtain ⟨segments₂, hfield⟩ := exists_takeBlock_field hle hne hflat hreturned hhead
  obtain ⟨hne₂, hflat₂, x, y, htwo, hrecv⟩ := lrecv_of_lengthRead hle hne hflat hhead hfield
  rw [takeFrame, hhead, Option.bind_some, hfield, Option.bind_some, takeData]
  split
  · next hpayload =>
    subst hpayload
    exact exists_takeBlock_one_one hne₂ hflat₂
  · next hpayload =>
    refine Option.ne_none_iff_exists'.mp fun hcut => ?_
    have hlast : ∀ call : Stack, 2 ≤ payload.length ∧
        payload[payload.length - 1]? = (x :: y :: call.buffer.drop 2)[payload.length - 1]? := by
      intro call
      obtain ⟨segments', hok, -⟩ := hreturned call
      rw [hrecv call] at hok
      have := call.length_buffer
      refine readData_cut hcut hne₂ (by rw [hflat₂, List.length_append]; omega) ?_ hok
      simp only [List.length_cons, List.length_drop]
      omega
    have htwoLe := (hlast (.fill 0)).1
    by_cases hlong : 3 ≤ payload.length
    · have hfill : ∀ b : UInt8, payload[payload.length - 1]? = some b := by
        intro b
        obtain ⟨n, hn⟩ : ∃ n, payload.length - 1 = n + 2 := ⟨payload.length - 3, by omega⟩
        rw [(hlast (.fill b)).2, hn, List.getElem?_cons_succ, List.getElem?_cons_succ, List.getElem?_drop,
          Stack.getElem?_fill (by omega)]
      have hsame := (hfill 0).symm.trans (hfill 1)
      exact absurd hsame (by decide)
    · obtain ⟨a, b, rfl⟩ := List.length_eq_two.mp (show payload.length = 2 by omega)
      obtain ⟨segments', hok, -⟩ := hreturned (.fill 0)
      obtain ⟨left, -, hcutRead⟩ := readData_two_cut hcut hne₂ hflat₂
      rw [hrecv, show (([a, b] : List UInt8).length : Int) = 2 from rfl, hcutRead] at hok
      cases hok
      exact hpayload (by rw [htwo rfl])

end Returned

/-! ### Whole deliveries -/

theorem recvAll_cons {call : Stack} {calls : List Stack} {payload : List UInt8}
    {payloads segments segments' : List (List UInt8)}
    (hrecv : lrecv call.masks call.buffer segments = .ok (payload, segments'))
    (hrest : recvAll calls segments' = .ok payloads) :
    recvAll (call :: calls) segments = .ok (payload :: payloads) := by
  rw [recvAll, hrecv]
  simp only [Except.bind, hrest]

theorem exists_lrecv_of_recvAll {call : Stack} {calls : List Stack} {payload : List UInt8}
    {payloads segments : List (List UInt8)} (h : recvAll (call :: calls) segments = .ok (payload :: payloads)) :
    ∃ segments', lrecv call.masks call.buffer segments = .ok (payload, segments') ∧
      recvAll calls segments' = .ok payloads := by
  obtain ⟨⟨data, segments'⟩, hrecv, h⟩ := bind_eq_ok h
  obtain ⟨later, hlater, h⟩ := bind_eq_ok h
  cases h
  exact ⟨segments', hrecv, hlater⟩

/-- The payloads of a delivery come back, whatever the stacks hold, exactly when every block comes in one
piece. The induction is on the payloads, with what is left of the segments behind each frame. -/
theorem recvAll_iff_unbroken {payloads segments : List (List UInt8)}
    (hle : ∀ payload ∈ payloads, payload.length ≤ cacheSize) (hne : [] ∉ segments)
    (hflat : segments.flatten = payloads.flatMap lpack) :
    (∀ calls : List Stack, calls.length = payloads.length → recvAll calls segments = .ok payloads) ↔
      Unbroken payloads segments := by
  induction payloads generalizing segments with
  | nil =>
    refine ⟨fun _ => trivial, fun _ calls hcalls => ?_⟩
    rw [List.length_eq_zero_iff.mp hcalls]
    rfl
  | cons payload payloads ih =>
    have hfirst := hle payload (List.mem_cons_self ..)
    have hlater : ∀ p ∈ payloads, p.length ≤ cacheSize := fun p hp => hle p (List.mem_cons_of_mem _ hp)
    rw [List.flatMap_cons] at hflat
    constructor
    · intro hall
      have hreturned : ∀ call : Stack, ∃ segments',
          lrecv call.masks call.buffer segments = .ok (payload, segments') ∧
            (payloads.flatMap lpack).length ≤ segments'.flatten.length := by
        intro call
        obtain ⟨segments', hrecv, hrest⟩ := exists_lrecv_of_recvAll
          (hall (call :: List.replicate payloads.length call) (by simp))
        exact ⟨segments', hrecv, recvAll_consumed hrest⟩
      obtain ⟨segments', hframe⟩ := exists_takeFrame hfirst hne hflat hreturned
      obtain ⟨hne', hflat', hrecv⟩ := lrecv_of_takeFrame hframe hfirst hne hflat
      refine ⟨segments', hframe, (ih hlater hne' hflat').mp fun calls hcalls => ?_⟩
      obtain ⟨segments'', hrecv', hrest⟩ := exists_lrecv_of_recvAll
        (hall (Stack.fill 0 :: calls) (by simp [hcalls]))
      rw [hrecv (Stack.fill 0)] at hrecv'
      cases hrecv'
      exact hrest
    · rintro ⟨segments', hframe, hunbroken⟩ calls hcalls
      obtain ⟨hne', hflat', hrecv⟩ := lrecv_of_takeFrame hframe hfirst hne hflat
      cases calls with
      | nil => cases hcalls
      | cons call calls =>
        exact recvAll_cons (hrecv call) ((ih hlater hne' hflat').mpr hunbroken calls (Nat.succ.inj hcalls))

/-- The client reads what the server packs exactly when no `recv` ends inside a block. -/
theorem received_iff_unbroken (d : Delivery) : d.Received ↔ Unbroken d.payloads d.segments :=
  recvAll_iff_unbroken d.payload_le d.segment_ne_nil d.flatten_segments

/-- The payload `41 42` whose second byte comes with the second `recv`. -/
def splitPayload : Delivery where
  payloads := [[65, 66]]
  segments := [[130, 2, 65], [66]]
  payload_le := by decide
  segment_ne_nil := by decide
  flatten_segments := by decide

/-- It is returned as `42 02`. -/
theorem splitPayload_not_received : ¬ splitPayload.Received := by
  intro h
  obtain ⟨segments', hrecv, -⟩ := exists_lrecv_of_recvAll (h [Stack.fill 0] rfl)
  have hhead : takeBlock websocketHeaderLen splitPayload.segments = some [[65], [66]] := by decide
  have hcut : takeBlock 2 [[65], [66]] = none := by decide
  obtain ⟨-, -, x, y, -, hread⟩ := @lrecv_of_lengthRead [65, 66] [] _ _ _ (by decide)
    splitPayload.segment_ne_nil splitPayload.flatten_segments hhead (takeBlock_zero _)
  obtain ⟨left, -, hdata⟩ := readData_two_cut hcut (by decide) rfl
  rw [hread (Stack.fill 0), show (([65, 66] : List UInt8).length : Int) = 2 from rfl, hdata] at hrecv
  cases hrecv

end SkynetServer.Websocket.Recv
