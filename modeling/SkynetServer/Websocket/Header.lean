import Mathlib.Data.List.Induction
import SkynetServer.Websocket.FilterData

/-!
# The header array of an unfinished packet

`struct uncomplete` has room for `HEADERSIZE` header bytes. The bytes of a fresh chunk are copied into it with a
bound in handshake mode only, and the loop that continues a header stores each byte before it looks at anything.
Whether a call stays inside the array is decided by the record it finds and by its chunk; `HeaderRoom` says how, and a
run never leaves the array exactly when each of its calls has that room.
-/

namespace SkynetServer.Websocket

/-! ### Looking again after more bytes -/

theorem readMask_append {a : List UInt8} {v : HeadVars} {isMask : UInt8} {offset : Nat} {packSize : Int}
    (b : List UInt8) (v' : HeadVars) (h : (readMask a v isMask offset packSize).1 ≠ -1) :
    (readMask (a ++ b) v' isMask offset packSize).1 = (readMask a v isMask offset packSize).1 := by
  unfold readMask at h ⊢
  by_cases hmask : isMask ≠ 0
  · rw [if_pos hmask] at h
    rw [if_pos hmask, if_pos hmask]
    by_cases hshort : a.length < offset + websocketMaskLen
    · rw [if_pos hshort] at h
      exact absurd rfl h
    · have hlong : ¬ (a ++ b).length < offset + websocketMaskLen := by
        rw [List.length_append]
        omega
      rw [if_neg hshort, if_neg hlong]
  · rw [if_neg hmask, if_neg hmask]

/-- An answer of `read_size` other than `-1` stays the same when more bytes arrive, and never depends on what the
variables held before. -/
theorem readSize_append {a : List UInt8} {v : HeadVars} (b : List UInt8) (v' : HeadVars)
    (h : (readSize a v).1 ≠ -1) : (readSize (a ++ b) v').1 = (readSize a v).1 := by
  match a with
  | [] => simp [readSize] at h
  | [_] => simp [readSize] at h
  | x :: y :: rest =>
    have htwo : ∀ l : List UInt8, ¬ l.length + 1 + 1 < 2 := fun l => by omega
    simp only [readSize, List.cons_append, List.getD_cons_zero, List.getD_cons_succ, List.length_cons, websocketHeaderLen,
      List.drop_succ_cons, List.drop_zero, if_neg (htwo _)] at h ⊢
    by_cases hrsv : (x >>> 6) &&& 0x1 ≠ 0 ∨ (x >>> 5) &&& 0x1 ≠ 0 ∨ (x >>> 4) &&& 0x1 ≠ 0
    · rw [if_pos hrsv, if_pos hrsv]
    by_cases hfin : (x >>> 7) &&& 0x1 = 0 ∨ x &&& 0xf = 0
    · rw [if_neg hrsv, if_neg hrsv, if_pos hfin, if_pos hfin]
    by_cases hclose : x &&& 0xf = 8
    · rw [if_neg hrsv, if_neg hrsv, if_neg hfin, if_neg hfin, if_pos hclose, if_pos hclose]
    rw [if_neg hrsv, if_neg hfin, if_neg hclose] at h ⊢
    rw [if_neg hrsv, if_neg hfin, if_neg hclose]
    by_cases hseven : y &&& 0x7f < 0x7e
    · rw [if_pos hseven] at h ⊢
      rw [if_pos hseven]
      exact readMask_append b v' h
    rw [if_neg hseven] at h ⊢
    rw [if_neg hseven]
    by_cases hsixteen : y &&& 0x7f = 0x7e
    · rw [if_pos hsixteen] at h ⊢
      rw [if_pos hsixteen]
      by_cases hshort : rest.length + 1 + 1 < 2 + 2
      · rw [if_pos hshort] at h
        exact absurd rfl h
      · rw [if_neg hshort] at h ⊢
        rw [if_neg (by rw [List.length_append]; omega), List.take_append_of_le_length (by omega)]
        exact readMask_append b v' h
    · rw [if_neg hsixteen] at h ⊢
      rw [if_neg hsixteen]
      by_cases hshort : rest.length + 1 + 1 < 2 + 8
      · rw [if_pos hshort] at h
        exact absurd rfl h
      · rw [if_neg hshort] at h ⊢
        rw [if_neg (by rw [List.length_append]; omega), List.take_append_of_le_length (by omega)]
        exact readMask_append b v' h

theorem readSize_fst_eq (buffer : List UInt8) (v v' : HeadVars) : (readSize buffer v).1 = (readSize buffer v').1 := by
  by_cases h : (readSize buffer v).1 = -1
  · by_contra hne
    have h' : (readSize buffer v').1 ≠ -1 := fun heq => hne (h.trans heq.symm)
    have := readSize_append [] v h'
    rw [List.append_nil] at this
    exact hne this
  · have := readSize_append [] v' h
    rw [List.append_nil] at this
    exact this.symm

/-- Where the loop stops and what it reads there. -/
def Scan.place (s : Scan) : Int × List UInt8 := (s.size, s.buffer)

theorem skipFrames_cons_cons (refused : Int → Bool) (x y : UInt8) (rest : List UInt8) (v v' : HeadVars) :
    ∃ v'', (skipFrames refused (x :: y :: rest) v).place =
      if refused (readSize (x :: y :: rest) v').1 then (skipFrames refused rest v'').place
      else ((readSize (x :: y :: rest) v').1, x :: y :: rest) := by
  rw [readSize_fst_eq (x :: y :: rest) v' v, skipFrames]
  refine ⟨{ packHeadLength := (readSize (x :: y :: rest) v).2.packHeadLength }, ?_⟩
  simp only
  split <;> rfl

theorem skipFrames_place_eq (refused : Int → Bool) (buffer : List UInt8) (v v' : HeadVars) :
    (skipFrames refused buffer v).place = (skipFrames refused buffer v').place := by
  match buffer with
  | [] => rfl
  | [_] => rfl
  | x :: y :: rest =>
    obtain ⟨w, hw⟩ := skipFrames_cons_cons refused x y rest v v
    obtain ⟨w', hw'⟩ := skipFrames_cons_cons refused x y rest v' v
    rw [hw, hw', skipFrames_place_eq refused rest w w']

theorem skipFrames_append (a b : List UInt8) (v v' v'' : HeadVars) :
    (skipFrames isInvalid (a ++ b) v).place =
      (skipFrames isInvalid ((skipFrames isInvalid a v').place.2 ++ b) v'').place := by
  match a with
  | [] => exact skipFrames_place_eq _ _ _ _
  | [_] => exact skipFrames_place_eq _ _ _ _
  | x :: y :: rest =>
    obtain ⟨w, hw⟩ := skipFrames_cons_cons isInvalid x y rest v' v'
    rw [hw]
    by_cases hrefused : isInvalid (readSize (x :: y :: rest) v').1
    · rw [if_pos hrefused]
      obtain ⟨w', hw'⟩ := skipFrames_cons_cons isInvalid x y (rest ++ b) v v'
      have hsame : (readSize (x :: y :: (rest ++ b)) v').1 = (readSize (x :: y :: rest) v').1 := by
        refine readSize_append (a := x :: y :: rest) b v' (v := v') ?_
        intro heq
        rw [heq] at hrefused
        exact absurd hrefused (by decide)
      rw [hsame, if_pos hrefused] at hw'
      rw [List.cons_append, List.cons_append, hw']
      exact skipFrames_append rest b w' w v''
    · rw [if_neg hrefused]
      exact skipFrames_place_eq _ _ _ _

/-- Looking at a header again, from where the last look stopped, is looking at all of its bytes. -/
theorem scanHeader_append (handshake : Bool) (a b : List UInt8) (v v' v'' : HeadVars) :
    (scanHeader isInvalid handshake ((scanHeader isInvalid handshake a v').buffer ++ b) v'').place =
      (scanHeader isInvalid handshake (a ++ b) v).place := by
  cases handshake with
  | true => rfl
  | false =>
    obtain ⟨hsize, hbuffer⟩ := Prod.mk.inj (skipFrames_append a b v v' v'')
    simp only [scanHeader, Scan.place, Bool.false_eq_true, if_false] at hsize hbuffer ⊢
    rw [hsize, hbuffer]

theorem scanHeader_length_le (refused : Int → Bool) (handshake : Bool) (buffer : List UInt8) (v : HeadVars) :
    (scanHeader refused handshake buffer v).buffer.length ≤ buffer.length := by
  cases handshake with
  | true => exact le_rfl
  | false => exact skipFrames_length_le refused buffer v

/-! ### What the array has room for -/

/-- `push_more` on `buffer` comes to look for a header at `position`. -/
inductive HeaderAt : List UInt8 → List UInt8 → Prop where
  | here (buffer : List UInt8) : HeaderAt buffer buffer
  | next {buffer position : List UInt8} {s : Scan} (hscan : s = scanHeader isInvalidOrClose false buffer {})
      (hsize : 0 ≤ s.size) (hwhole : s.size.toNat ≤ (s.buffer.drop s.vars.packHeadLength).length)
      (hnext : HeaderAt ((s.buffer.drop s.vars.packHeadLength).drop s.size.toNat) position) : HeaderAt buffer position

/-- An incomplete header fits, wherever one is found. -/
def MoreRoom (buffer : List UInt8) : Prop :=
  ∀ position, HeaderAt buffer position → (scanHeader isInvalidOrClose false position {}).size = -1 →
    (scanHeader isInvalidOrClose false position {}).buffer.length ≤ headersize

/-- The same for the first header of a chunk, and for those behind its packet. -/
def FreshRoom (buffer : List UInt8) : Prop :=
  ((scanHeader isInvalid false buffer {}).size = -1 →
    (scanHeader isInvalid false buffer {}).buffer.length ≤ headersize) ∧
  (0 ≤ (scanHeader isInvalid false buffer {}).size →
    MoreRoom (((scanHeader isInvalid false buffer {}).buffer.drop
      (scanHeader isInvalid false buffer {}).vars.packHeadLength).drop
        (scanHeader isInvalid false buffer {}).size.toNat))

/-- The header is still not complete with the first `k` bytes of the chunk behind it. -/
def HeaderOpen (handshake : Bool) (header chunk : List UInt8) (k : Nat) : Prop :=
  ∀ j, 1 ≤ j → j ≤ k → (scanHeader isInvalid handshake (header ++ chunk.take j) {}).size < 0

/-- What the array holds with the first `k` bytes of the chunk. -/
def storedHeader (handshake : Bool) (header chunk : List UInt8) (k : Nat) : List UInt8 :=
  if k = 0 then header else (scanHeader isInvalid handshake (header ++ chunk.take k) {}).buffer

/-- No byte arrives for a header that fills the array without being complete; and in frame mode the packets behind
the one this header belongs to have room for theirs. -/
def ResumeRoom (handshake : Bool) (header chunk : List UInt8) : Prop :=
  (∀ k < chunk.length, HeaderOpen handshake header chunk k →
    (storedHeader handshake header chunk k).length < headersize) ∧
  ∀ k < chunk.length, handshake = false → HeaderOpen handshake header chunk k →
    0 ≤ (scanHeader isInvalid handshake (header ++ chunk.take (k + 1)) {}).size →
    MoreRoom ((chunk.drop (k + 1)).drop
      (scanHeader isInvalid handshake (header ++ chunk.take (k + 1)) {}).size.toNat)

/-- The condition on one call: the record of `fd` before it and its chunk. -/
def HeaderRoom (L : Option Queue) (fd : Int) (chunk : List UInt8) (handshake : Bool) : Prop :=
  match record L fd with
  | none => handshake = false → FreshRoom chunk
  | some uc =>
    if uc.read < 0 then ResumeRoom handshake uc.header chunk
    else handshake = false → MoreRoom (chunk.drop (uc.packSize - uc.read).toNat)

/-! ### One call -/

theorem moreRoom_iff {buffer : List UInt8} {s : Scan} (hs : s = scanHeader isInvalidOrClose false buffer {}) :
    MoreRoom buffer ↔ (s.size = -1 → s.buffer.length ≤ headersize) ∧
      (0 ≤ s.size → s.size.toNat ≤ (s.buffer.drop s.vars.packHeadLength).length →
        MoreRoom ((s.buffer.drop s.vars.packHeadLength).drop s.size.toNat)) := by
  subst hs
  constructor
  · intro h
    exact ⟨h buffer (.here buffer), fun hsize hwhole position hat => h position (.next rfl hsize hwhole hat)⟩
  · rintro ⟨hhere, hnext⟩ position hat
    cases hat with
    | here => exact hhere
    | next hscan hsize hwhole hat =>
      subst hscan
      exact hnext hsize hwhole position hat

theorem moreRoom_nil : MoreRoom [] := by
  rw [moreRoom_iff rfl]
  exact ⟨fun _ => by simp [scanHeader, skipFrames], fun h => absurd h (by decide)⟩

theorem saveHeader_handshake (fd : Int) (buffer : List UInt8) :
    saveHeader fd buffer true = .ok { id := fd, read := -1, header := buffer.take headersize } := by
  unfold saveHeader
  by_cases hlong : headersize < buffer.length
  · rw [if_pos ⟨rfl, hlong⟩]
  · rw [if_neg (fun h => hlong h.2), if_neg hlong, List.take_of_length_le (by omega)]

theorem saveHeader_frames (fd : Int) (buffer : List UInt8) :
    saveHeader fd buffer false =
      if buffer.length ≤ headersize then .ok { id := fd, read := -1, header := buffer }
      else .error (.headerOverrun headersize) := by
  unfold saveHeader
  rw [if_neg (by simp)]
  by_cases hlong : headersize < buffer.length
  · rw [if_pos hlong, if_neg (by omega)]
  · rw [if_neg hlong, if_pos (by omega)]

/-- Every record in the table satisfies `P`. -/
def AllRecords (P : Uncomplete → Prop) (L : Option Queue) : Prop := ∀ h, ∀ uc ∈ (getQueue L).hash h, P uc

theorem allRecords_none (P : Uncomplete → Prop) : AllRecords P none := by
  intro h uc huc
  simp [getQueue, Queue.new] at huc

theorem allRecords_congr {P : Uncomplete → Prop} {L L' : Option Queue}
    (heq : (getQueue L').hash = (getQueue L).hash) (h : AllRecords P L) : AllRecords P L' := by
  intro k uc huc
  rw [heq] at huc
  exact h k uc huc

theorem AllRecords.setChain {P : Uncomplete → Prop} {q : Queue} {k : Nat} {chain : List Uncomplete}
    (h : AllRecords P (some q)) (hchain : ∀ uc ∈ chain, P uc) : AllRecords P (some (setChain q k chain)) := by
  intro k' uc huc
  by_cases heq : k' = k
  · subst heq
    rw [getQueue_some, setChain_hash_self] at huc
    exact hchain uc huc
  · rw [getQueue_some, setChain_hash_of_ne _ _ heq] at huc
    exact h k' uc huc

theorem AllRecords.link {P : Uncomplete → Prop} {q : Queue} {uc : Uncomplete} (h : AllRecords P (some q))
    (huc : P uc) : AllRecords P (some (link q uc)) :=
  h.setChain fun u hu => by
    rcases List.mem_cons.mp hu with rfl | hu
    · exact huc
    · exact h _ u hu

theorem AllRecords.find {P : Uncomplete → Prop} {L : Option Queue} {fd : Int} {uc : Uncomplete} {q : Queue}
    (h : AllRecords P L) (hfind : findUncomplete L fd = some (uc, q)) :
    record L fd = some uc ∧ P uc ∧ AllRecords P (some q) := by
  cases L with
  | none => simp [findUncomplete] at hfind
  | some p =>
    obtain ⟨⟨found, chain⟩, hfound, heq⟩ := Option.map_eq_some_iff.mp hfind
    obtain ⟨rfl, rfl⟩ := Prod.mk.inj heq
    obtain ⟨-, hrecord, hsub, -⟩ := unlink_some hfound
    exact ⟨hrecord, h _ _ (List.mem_of_find?_eq_some hrecord), h.setChain fun u hu => h _ u (hsub.mem hu)⟩

theorem AllRecords.close {P : Uncomplete → Prop} {L : Option Queue} (h : AllRecords P L) (fd : Int) :
    AllRecords P (closeUncomplete L fd) := by
  unfold closeUncomplete
  split
  · exact h
  · rename_i hfind
    exact (h.find hfind).2.2

/-- The header of an unfinished packet lies in its array. -/
def Uncomplete.Fits (uc : Uncomplete) : Prop := uc.read < 0 → uc.header.length ≤ headersize

/-- An outcome that stays inside the array exactly under the condition `room`. -/
inductive Bounded {α : Type} (fits : α → Prop) (room : Prop) : Except Fault α → Prop where
  | ok (a : α) (hfits : fits a) (hroom : room) : Bounded fits room (.ok a)
  | aborted (size : Int) (hroom : room) : Bounded fits room (.error (.badAlloc size))
  | overrun (index : Nat) (hroom : ¬ room) : Bounded fits room (.error (.headerOverrun index))

theorem Bounded.of_iff {α : Type} {fits : α → Prop} {room room' : Prop} {out : Except Fault α}
    (h : Bounded fits room out) (hiff : room ↔ room') : Bounded fits room' out := by
  rwa [← hiff]

theorem Bounded.map {α β : Type} {fits : α → Prop} {fits' : β → Prop} {room : Prop} {out : Except Fault α}
    (h : Bounded fits room out) (f : α → β) (hf : ∀ a, fits a → fits' (f a)) : Bounded fits' room (out.map f) := by
  cases h with
  | ok a hfits hroom => exact .ok _ (hf a hfits) hroom
  | aborted size hroom => exact .aborted size hroom
  | overrun index hroom => exact .overrun index hroom

theorem bounded_saveHeader (fd : Int) (buffer : List UInt8) (handshake : Bool) :
    Bounded Uncomplete.Fits (handshake = false → buffer.length ≤ headersize) (saveHeader fd buffer handshake) := by
  cases handshake with
  | true =>
    rw [saveHeader_handshake]
    exact .ok _ (fun _ => List.length_take_le _ _) (by simp)
  | false =>
    rw [saveHeader_frames]
    by_cases hlen : buffer.length ≤ headersize
    · rw [if_pos hlen]
      exact .ok _ (fun _ => hlen) fun _ => hlen
    · rw [if_neg hlen]
      exact .overrun _ fun h => hlen (h rfl)

theorem fits_savePayload (fd : Int) (v : HeadVars) (packSize : Nat) (buffer : List UInt8) :
    (savePayload fd v packSize buffer).Fits := by
  intro hread
  have : (savePayload fd v packSize buffer).read = buffer.length := rfl
  omega

/-- `push_more` leaves the array only in frame mode, and only at a header without room. -/
theorem bounded_pushMore (q : Queue) (fd : Int) (buffer : List UInt8) (handshake : Bool)
    (hfits : AllRecords Uncomplete.Fits (some q)) :
    Bounded (fun q' => AllRecords Uncomplete.Fits (some q')) (handshake = false → MoreRoom buffer)
      (pushMore q fd buffer handshake) := by
  induction q, buffer using pushMore.induct fd handshake with
  | case1 q buffer s hsize =>
    rw [pushMore, if_pos hsize]
    refine ((bounded_saveHeader fd s.buffer handshake).map (saveUncomplete (some q)) fun uc huc =>
      hfits.link huc).of_iff ?_
    cases handshake with
    | true => simp
    | false =>
      rw [moreRoom_iff (s := s) rfl]
      simp [hsize]
  | case2 q buffer s hsize packSize rest hshort =>
    rw [pushMore, if_neg hsize, if_pos hshort]
    refine .ok _ (hfits.link (fits_savePayload _ _ _ _)) fun hframes => ?_
    subst hframes
    rw [moreRoom_iff (s := s) rfl]
    exact ⟨fun h => absurd h hsize, fun _ hwhole => absurd hshort.1 (not_lt_of_ge hwhole)⟩
  | case3 q buffer s hsize packSize rest hwhole hnil =>
    rw [pushMore, if_neg hsize, if_neg hwhole, if_pos hnil]
    refine .ok _ (allRecords_congr (by simp) hfits) fun hframes => ?_
    subst hframes
    rw [moreRoom_iff (s := s) rfl]
    refine ⟨fun h => absurd h hsize, fun _ _ => ?_⟩
    rw [hnil]
    exact moreRoom_nil
  | case4 q buffer s hsize packSize rest hwhole bytes q' hmore ih =>
    rw [pushMore, if_neg hsize, if_neg hwhole, if_neg hmore]
    refine (ih (allRecords_congr (by simp [q']) hfits)).of_iff ?_
    cases handshake with
    | true => simp
    | false =>
      rw [moreRoom_iff (s := s) rfl]
      have hpos : 0 ≤ s.size := (scanHeader_more_cases false buffer {}).resolve_left hsize
      have hlen : packSize ≤ rest.length := by
        simp only [Bool.false_eq_true, not_false_eq_true, and_true, not_lt] at hwhole
        exact hwhole
      exact ⟨fun h hframes => ⟨fun h' => absurd h' hsize, fun _ _ => h hframes⟩,
        fun h hframes => (h hframes).2 hpos hlen⟩

/-! ### Continuing a header -/

theorem scanHeader_shift (handshake : Bool) (header : List UInt8) (b : UInt8) (rest : List UInt8) (v : HeadVars)
    (k : Nat) :
    (scanHeader isInvalid handshake (header ++ (b :: rest).take (k + 1)) {}).place =
      (scanHeader isInvalid handshake
        ((scanHeader isInvalid handshake (header ++ [b]) v).buffer ++ rest.take k) {}).place := by
  rw [List.take_succ_cons, List.append_cons]
  exact (scanHeader_append handshake (header ++ [b]) (rest.take k) {} v {}).symm

theorem storedHeader_shift (handshake : Bool) (header : List UInt8) (b : UInt8) (rest : List UInt8) (v : HeadVars)
    (k : Nat) :
    storedHeader handshake header (b :: rest) (k + 1) =
      storedHeader handshake (scanHeader isInvalid handshake (header ++ [b]) v).buffer rest k := by
  have hshift := congrArg Prod.snd (scanHeader_shift handshake header b rest v k)
  simp only [Scan.place] at hshift
  rw [storedHeader, if_neg (by omega), hshift]
  by_cases hk : k = 0
  · subst hk
    have hagain := congrArg Prod.snd (scanHeader_append handshake (header ++ [b]) [] v v {})
    simp only [Scan.place, List.append_nil] at hagain
    simpa [storedHeader] using hagain
  · rw [storedHeader, if_neg hk]

theorem headerOpen_shift {handshake : Bool} {header : List UInt8} {b : UInt8} {v : HeadVars}
    (hneg : (scanHeader isInvalid handshake (header ++ [b]) v).size < 0) (rest : List UInt8) (k : Nat) :
    HeaderOpen handshake header (b :: rest) (k + 1) ↔
      HeaderOpen handshake (scanHeader isInvalid handshake (header ++ [b]) v).buffer rest k := by
  have hshift := fun j => congrArg Prod.fst (scanHeader_shift handshake header b rest v j)
  simp only [Scan.place] at hshift
  constructor
  · intro h j hj hle
    rw [← hshift]
    exact h (j + 1) (by omega) (by omega)
  · intro h j hj hle
    obtain ⟨j, rfl⟩ : ∃ i, j = i + 1 := ⟨j - 1, by omega⟩
    by_cases hzero : j = 0
    · subst hzero
      have hagain := congrArg Prod.fst (scanHeader_append handshake (header ++ [b]) [] v v {})
      simp only [Scan.place, List.append_nil] at hagain
      rw [hshift, List.take_zero, List.append_nil, hagain]
      exact hneg
    · rw [hshift]
      exact h j (by omega) (by omega)

/-- The loop either comes to store a byte behind a full array, or stops with the byte that completes the header or
with the last one of the chunk. -/
theorem readHeader_cases (handshake : Bool) (header chunk : List UInt8) (v : HeadVars) (hne : chunk ≠ []) :
    (∃ k < chunk.length, HeaderOpen handshake header chunk k ∧
      headersize ≤ (storedHeader handshake header chunk k).length ∧
      ∃ index, readHeader handshake header chunk v = .error (.headerOverrun index)) ∨
    ∃ k < chunk.length, HeaderOpen handshake header chunk k ∧
      (∀ j ≤ k, (storedHeader handshake header chunk j).length < headersize) ∧
      (storedHeader handshake header chunk (k + 1)).length ≤ headersize ∧
      (0 ≤ (scanHeader isInvalid handshake (header ++ chunk.take (k + 1)) {}).size ∨ k + 1 = chunk.length) ∧
      ∃ vars, readHeader handshake header chunk v =
        .ok ⟨(scanHeader isInvalid handshake (header ++ chunk.take (k + 1)) {}).size, vars,
          storedHeader handshake header chunk (k + 1), chunk.drop (k + 1)⟩ := by
  induction chunk generalizing header v with
  | nil => exact absurd rfl hne
  | cons b rest ih =>
    have hzero : HeaderOpen handshake header (b :: rest) 0 := fun j hj hle => absurd hj (by omega)
    rw [readHeader]
    by_cases hfull : headersize ≤ header.length
    · rw [if_pos hfull]
      exact .inl ⟨0, by simp, hzero, by simpa [storedHeader] using hfull, _, rfl⟩
    have hroom : (storedHeader handshake header (b :: rest) 0).length < headersize := by
      simpa [storedHeader] using hfull
    rw [if_neg hfull]
    obtain ⟨hsize, hbuffer⟩ := Prod.mk.inj (scanHeader_append handshake (header ++ [b]) [] v v {})
    obtain ⟨hsize', -⟩ := Prod.mk.inj (scanHeader_shift handshake header b rest v 0)
    rw [List.append_nil, List.append_nil] at hsize hbuffer
    rw [List.take_zero, List.append_nil, hsize] at hsize'
    by_cases hstop : 0 ≤ (scanHeader isInvalid handshake (header ++ [b]) v).size ∨ rest = []
    · refine .inr ⟨0, by simp, hzero, fun j hj => ?_, ?_, ?_, (scanHeader isInvalid handshake (header ++ [b]) v).vars,
        ?_⟩
      · rw [Nat.le_zero.mp hj]
        exact hroom
      · have hlen := scanHeader_length_le isInvalid handshake (header ++ [b]) v
        rw [List.length_append, List.length_singleton] at hlen
        rw [storedHeader_shift handshake header b rest v 0]
        simp only [storedHeader, if_true]
        omega
      · rw [hsize']
        exact hstop.imp_right fun h => by simp [h]
      · simp only [if_pos hstop, hsize', storedHeader_shift handshake header b rest v 0]
        rfl
    · rw [not_or, not_le] at hstop
      have hgo : ¬ (0 ≤ (scanHeader isInvalid handshake (header ++ [b]) v).size ∨ rest = []) := by
        rw [not_or, not_le]
        exact hstop
      simp only [if_neg hgo]
      have hopen := headerOpen_shift hstop.1 rest
      have hstored := storedHeader_shift handshake header b rest v
      rcases ih (scanHeader isInvalid handshake (header ++ [b]) v).buffer
          (scanHeader isInvalid handshake (header ++ [b]) v).vars hstop.2 with
        ⟨k, hk, hopenk, hfullk, hout⟩ | ⟨k, hk, hopenk, hroomk, hfitk, hstopk, vars, hout⟩
      · refine .inl ⟨k + 1, by simpa using hk, (hopen k).mpr hopenk, ?_, hout⟩
        rw [hstored]
        exact hfullk
      · obtain ⟨hsizek, -⟩ := Prod.mk.inj (scanHeader_shift handshake header b rest v (k + 1))
        refine .inr ⟨k + 1, by simpa using hk, (hopen k).mpr hopenk, fun j hj => ?_, ?_, ?_, vars, ?_⟩
        · cases j with
          | zero => exact hroom
          | succ j =>
            rw [hstored]
            exact hroomk j (by omega)
        · rw [hstored]
          exact hfitk
        · rw [hsizek]
          exact hstopk.imp_right fun h => by simp [h]
        · rw [hout, hsizek, hstored, List.drop_succ_cons]

theorem bounded_fillPack (q : Queue) (fd : Int) (uc : Uncomplete) (buffer : List UInt8) (handshake : Bool)
    (hfits : AllRecords Uncomplete.Fits (some q)) (hread : 0 ≤ uc.read) :
    Bounded (fun out => AllRecords Uncomplete.Fits out.1)
      (handshake = false → MoreRoom (buffer.drop (uc.packSize - uc.read).toNat))
      (fillPack q fd uc buffer handshake) := by
  unfold fillPack
  by_cases hshort : buffer.length < (uc.packSize - uc.read).toNat
  · simp only [if_pos hshort]
    have hdrop : buffer.drop (uc.packSize - uc.read).toNat = [] := List.drop_eq_nil_of_le hshort.le
    rw [hdrop]
    refine .ok _ (hfits.link fun hneg => absurd hneg ?_) fun _ => moreRoom_nil
    unfold decodeWsmaskData
    split <;> dsimp only <;> omega
  · simp only [if_neg hshort]
    by_cases hnil : buffer.drop (uc.packSize - uc.read).toNat = []
    · simp only [hnil]
      exact .ok _ hfits fun _ => moreRoom_nil
    · simp only [if_neg hnil]
      exact (bounded_pushMore _ fd _ handshake (allRecords_congr (by simp) hfits)).map
        (fun q => (some q, FilterResult.more)) fun _ h => h

theorem bounded_resumeData (q : Queue) (fd : Int) (uc : Uncomplete) (chunk : List UInt8) (handshake : Bool)
    (hfits : AllRecords Uncomplete.Fits (some q)) :
    Bounded (fun out => AllRecords Uncomplete.Fits out.1)
      (if uc.read < 0 then ResumeRoom handshake uc.header chunk
        else handshake = false → MoreRoom (chunk.drop (uc.packSize - uc.read).toNat))
      (resumeData q fd uc chunk handshake) := by
  by_cases hread : uc.read < 0
  · rw [if_pos hread]
    by_cases hne : chunk = []
    · subst hne
      have hroom : ResumeRoom handshake uc.header [] := ⟨fun k hk => by simp at hk, fun k hk => by simp at hk⟩
      rw [resumeData_of_readHeader q hread rfl]
      exact (bounded_fillPack q fd (newPack uc ⟨0, {}, uc.header, []⟩ handshake) [] handshake hfits
        (by simp [newPack])).of_iff
        ⟨fun _ => hroom, fun _ _ => by rw [List.drop_nil]; exact moreRoom_nil⟩
    rcases readHeader_cases handshake uc.header chunk {} hne with
      ⟨k, hk, hopen, hfull, index, hout⟩ | ⟨k, hk, hopen, hroom, hfit, hstop, vars, hout⟩
    · rw [resumeData, if_pos hread, hout]
      exact .overrun index fun h => absurd (h.1 k hk hopen) (by omega)
    · -- nothing after byte `k` is stored, so the first half of the condition holds
      have hinside : 0 ≤ (scanHeader isInvalid handshake (uc.header ++ chunk.take (k + 1)) {}).size ∨
          k + 1 = chunk.length → ∀ j < chunk.length, HeaderOpen handshake uc.header chunk j →
          (storedHeader handshake uc.header chunk j).length < headersize := by
        intro hstop j hj hopenj
        by_cases hle : j ≤ k
        · exact hroom j hle
        · rcases hstop with hstop | hstop
          · exact absurd (hopenj (k + 1) (by omega) (by omega)) (by omega)
          · omega
      rw [resumeData_of_readHeader q hread hout]
      dsimp only
      by_cases hsize : 0 ≤ (scanHeader isInvalid handshake (uc.header ++ chunk.take (k + 1)) {}).size
      · rw [if_neg (by omega), if_neg (by omega), if_neg (by omega)]
        refine (bounded_fillPack q fd _ (chunk.drop (k + 1)) handshake hfits (by simp [newPack])).of_iff ?_
        have hneed : handshake = false → ∀ h : HeaderRead,
            (((newPack uc h handshake).packSize : Int) - (newPack uc h handshake).read).toNat = h.packSize.toNat := by
          rintro rfl h
          exact Int.toNat_natCast _
        constructor
        · intro hmore
          refine ⟨hinside hstop, fun j hj hframes hopenj hsizej => ?_⟩
          obtain rfl : j = k := by
            rcases Nat.lt_trichotomy j k with hlt | heq | hgt
            · exact absurd (hopen (j + 1) (by omega) (by omega)) (by omega)
            · exact heq
            · exact absurd (hopenj (k + 1) (by omega) (by omega)) (by omega)
          have hroom := hmore hframes
          rwa [hneed hframes] at hroom
        · intro h hframes
          rw [hneed hframes]
          exact h.2 k hk hframes hopen hsize
      · have hroom : ResumeRoom handshake uc.header chunk := by
          refine ⟨hinside hstop, fun j hj hframes hopenj hsizej => ?_⟩
          rcases Nat.lt_trichotomy j k with hlt | rfl | hgt
          · exact absurd (hopen (j + 1) (by omega) (by omega)) (by omega)
          · exact absurd hsizej hsize
          · exact absurd hstop (by omega)
        by_cases hone : (scanHeader isInvalid handshake (uc.header ++ chunk.take (k + 1)) {}).size = -1
        · rw [if_pos hone]
          exact .ok _ (hfits.link fun _ => hfit) hroom
        rw [if_neg hone]
        by_cases hthree : (scanHeader isInvalid handshake (uc.header ++ chunk.take (k + 1)) {}).size = -3
        · rw [if_pos hthree]
          exact .ok _ (hfits.close fd) hroom
        · rw [if_neg hthree, if_pos (by omega)]
          exact .aborted _ hroom
  · rw [if_neg hread, resumeData, if_neg hread]
    exact bounded_fillPack q fd uc chunk handshake hfits (by omega)

theorem bounded_freshData (L : Option Queue) (fd : Int) (chunk : List UInt8) (handshake : Bool)
    (hfits : AllRecords Uncomplete.Fits L) :
    Bounded (fun out => AllRecords Uncomplete.Fits out.1) (handshake = false → FreshRoom chunk)
      (freshData L fd chunk handshake) := by
  have hqueue : AllRecords Uncomplete.Fits (some (getQueue L)) := hfits
  simp only [freshData]
  by_cases hone : (scanHeader isInvalid handshake chunk {}).size = -1
  · rw [if_pos hone]
    refine ((bounded_saveHeader fd _ handshake).map (fun uc => (some (saveUncomplete L uc), FilterResult.nothing))
      fun uc huc => hqueue.link huc).of_iff ?_
    cases handshake with
    | true => simp
    | false => simp [FreshRoom, hone]
  rw [if_neg hone]
  by_cases hneg : (scanHeader isInvalid handshake chunk {}).size < 0
  · have hroom : handshake = false → FreshRoom chunk := by
      rintro rfl
      exact ⟨fun h => absurd h hone, fun h => absurd h (by omega)⟩
    split
    · exact .ok _ (hfits.close fd) hroom
    · exact .aborted _ hroom
  rw [if_neg (by omega), if_neg hneg]
  have hiff : (handshake = false → FreshRoom chunk) ↔ (handshake = false →
      MoreRoom (((scanHeader isInvalid handshake chunk {}).buffer.drop
        (scanHeader isInvalid handshake chunk {}).vars.packHeadLength).drop
          (scanHeader isInvalid handshake chunk {}).size.toNat)) := by
    cases handshake with
    | true => simp
    | false =>
      simp only [FreshRoom, forall_const]
      exact ⟨fun h => h.2 (by omega), fun h => ⟨fun h' => absurd h' hone, fun _ => h⟩⟩
  split
  · rename_i hshort
    refine Bounded.of_iff (.ok _ (hqueue.link (fits_savePayload _ _ _ _)) fun _ => ?_) hiff.symm
    rw [List.drop_eq_nil_of_le hshort.1.le]
    exact moreRoom_nil
  split
  · rename_i hexact
    refine Bounded.of_iff (.ok _ hfits fun _ => ?_) hiff.symm
    rw [List.drop_eq_nil_of_le hexact.le]
    exact moreRoom_nil
  · exact ((bounded_pushMore _ fd _ handshake (allRecords_congr (by simp) hfits)).map
      (fun q => (some q, FilterResult.more)) fun _ h => h).of_iff hiff.symm

/-- **One call.** `filter_data_` stays inside the header array exactly when the record it finds and its chunk leave
room. -/
theorem bounded_filterData {L : Option Queue} (fd : Int) (chunk : List UInt8) (handshake : Bool)
    (hfits : AllRecords Uncomplete.Fits L) :
    Bounded (fun out => AllRecords Uncomplete.Fits out.1) (HeaderRoom L fd chunk handshake)
      (filterData L fd chunk handshake) := by
  unfold filterData HeaderRoom
  cases hfind : findUncomplete L fd with
  | none =>
    rw [(findUncomplete_eq_none_iff L fd).mp hfind]
    exact bounded_freshData L fd chunk handshake hfits
  | some found =>
    obtain ⟨uc, q⟩ := found
    obtain ⟨hrecord, -, hfits'⟩ := hfits.find hfind
    rw [hrecord]
    exact bounded_resumeData q fd uc chunk handshake hfits'

/-! ### Runs -/

/-- What the gate calls: `lfilter` with a socket message, or `lpop`. -/
inductive Call where
  | filter (message : SocketMessage) (handshake : Bool)
  | pop

def Call.run (L : Option Queue) : Call → Except Fault (Option Queue)
  | .filter message handshake => (lfilter L message handshake).map (·.1)
  | .pop => .ok (match lpop L with
    | none => L
    | some (_, q) => some q)

/-- The calls of a run, from the state before the first message. -/
def runCalls (calls : List Call) : Except Fault (Option Queue) := calls.foldlM Call.run none

/-- The condition on the state before a call. -/
def Call.Room (L : Option Queue) : Call → Prop
  | .filter (.data fd chunk) handshake => HeaderRoom L fd chunk handshake
  | _ => True

/-- In every state of the run the header of every unfinished packet lies in its array, and no call writes beyond
it. -/
def HeaderSafe (calls : List Call) : Prop :=
  ∀ done, done <+: calls →
    (∀ index, runCalls done ≠ .error (.headerOverrun index)) ∧
    ∀ L, runCalls done = .ok L → AllRecords (fun uc => uc.read = -1 → uc.header.length ≤ headersize) L

/-- Each call of the run finds the room it needs. -/
def RoomAlong (calls : List Call) : Prop :=
  ∀ done call, done ++ [call] <+: calls → ∀ L, runCalls done = .ok L → call.Room L

theorem runCalls_snoc (done : List Call) (call : Call) :
    runCalls (done ++ [call]) = (runCalls done).bind fun L => call.run L := by
  simp only [runCalls, List.foldlM_append, List.foldlM_cons, List.foldlM_nil, bind_pure]
  rfl

theorem bounded_run {L : Option Queue} (call : Call) (hfits : AllRecords Uncomplete.Fits L) :
    Bounded (AllRecords Uncomplete.Fits) (call.Room L) (call.run L) := by
  cases call with
  | pop =>
    refine .ok _ ?_ trivial
    cases hpop : lpop L with
    | none => exact hfits
    | some popped => exact allRecords_congr (lpop_some hpop).2 hfits
  | filter message handshake =>
    cases message with
    | data fd chunk => exact (bounded_filterData fd chunk handshake hfits).map (·.1) fun _ h => h
    | connect => exact .ok _ hfits trivial
    | close fd => exact .ok _ (hfits.close fd) trivial
    | accept => exact .ok _ hfits trivial
    | error fd => exact .ok _ (hfits.close fd) trivial
    | warning => exact .ok _ hfits trivial

/-- What each call of a run preserves holds wherever a run without a fault leads. -/
theorem runCalls_invariant {P : List Call → Option Queue → Prop} (hinit : P [] none)
    (hstep : ∀ done call L L', P done L → call.run L = .ok L' → P (done ++ [call]) L') (calls : List Call) :
    ∀ L, runCalls calls = .ok L → P calls L := by
  induction calls using List.reverseRecOn with
  | nil =>
    rintro L ⟨⟩
    exact hinit
  | append_singleton done call ih =>
    intro L hrun
    rw [runCalls_snoc] at hrun
    cases hdone : runCalls done with
    | error e =>
      rw [hdone] at hrun
      cases hrun
    | ok L₀ =>
      rw [hdone] at hrun
      exact hstep done call L₀ L (ih L₀ hdone) hrun

theorem fits_of_runCalls (calls : List Call) :
    ∀ L, runCalls calls = .ok L → AllRecords Uncomplete.Fits L := by
  refine runCalls_invariant (P := fun _ L => AllRecords Uncomplete.Fits L) (allRecords_none _)
    (fun done call L L' hfits hrun => ?_) calls
  have hstep := bounded_run call hfits
  rw [hrun] at hstep
  cases hstep with
  | ok _ hfits' _ => exact hfits'

theorem headerSafe_of_room {calls : List Call} (hroom : RoomAlong calls) : HeaderSafe calls := by
  intro done hdone
  refine ⟨fun index => ?_, fun L hrun k uc huc hread => fits_of_runCalls done L hrun k uc huc (by omega)⟩
  induction done using List.reverseRecOn with
  | nil => exact fun hrun => nomatch hrun
  | append_singleton done call ih =>
    intro hrun
    rw [runCalls_snoc] at hrun
    cases hprev : runCalls done with
    | error e =>
      rw [hprev] at hrun
      exact ih ((List.prefix_append _ _).trans hdone) (hprev.trans hrun)
    | ok L =>
      rw [hprev] at hrun
      have hstep := bounded_run call (fits_of_runCalls done L hprev)
      change call.run L = .error _ at hrun
      rw [hrun] at hstep
      cases hstep with
      | overrun _ hnot => exact hnot (hroom done call hdone L hprev)

theorem room_of_headerSafe {calls : List Call} (hsafe : HeaderSafe calls) : RoomAlong calls := by
  intro done call hdone L hrun
  have hstep := bounded_run call (fits_of_runCalls done L hrun)
  have hnext := (hsafe _ hdone).1
  rw [runCalls_snoc, hrun] at hnext
  change ∀ index, call.run L ≠ _ at hnext
  cases hout : call.run L with
  | ok =>
    rw [hout] at hstep
    cases hstep with
    | ok _ _ h => exact h
  | error e =>
    rw [hout] at hstep
    cases hstep with
    | aborted _ h => exact h
    | overrun index _ => exact absurd hout (hnext index)

/-- **The header array.** A run of calls, on whatever bytes and in whatever modes, never leaves the array exactly when
each call finds the room it needs. -/
theorem headerSafe_iff_roomAlong (calls : List Call) : HeaderSafe calls ↔ RoomAlong calls :=
  ⟨room_of_headerSafe, headerSafe_of_room⟩

theorem getHttpHeader_of_notMem {buffer : List UInt8} (h : 13 ∉ buffer) : getHttpHeader buffer = -1 := by
  have hfrom : ∀ (n i : Nat) (haystack : List UInt8), 13 ∉ haystack →
      strnposFrom [13, 10, 13, 10] n i haystack = -1 := by
    intro n
    induction n with
    | zero => exact fun _ _ _ => rfl
    | succ n ih =>
      intro i haystack hnot
      rw [strnposFrom, if_neg]
      · exact ih _ _ fun hmem => hnot (List.mem_of_mem_drop hmem)
      · rintro ⟨-, htake⟩
        have hmem : (13 : UInt8) ∈ haystack.take 4 := (show haystack.take 4 = _ from htake) ▸ List.mem_cons_self
        exact hnot (List.mem_of_mem_take hmem)
  have hpos : websocketStrnpos buffer [13, 10, 13, 10] = -1 := by
    unfold websocketStrnpos
    split
    · rfl
    · exact hfrom _ _ _ h
  simp [getHttpHeader, hpos]

/-- A request line that never ends: the byte behind the first `HEADERSIZE` ones is stored behind the array. -/
theorem not_headerSafe_long_request : ¬ ∀ calls, HeaderSafe calls := by
  intro hall
  have hlong : getHttpHeader (List.replicate headersize 97) = -1 :=
    getHttpHeader_of_notMem fun h => absurd (List.eq_of_mem_replicate h) (by decide)
  have hroom := room_of_headerSafe (hall [.filter (.data 3 (List.replicate headersize 97)) true,
    .filter (.data 3 [97]) true]) [.filter (.data 3 (List.replicate headersize 97)) true] (.filter (.data 3 [97]) true)
    List.prefix_rfl
  have hfirst : runCalls [.filter (.data 3 (List.replicate headersize 97)) true] =
      .ok (some (saveUncomplete none { id := 3, read := -1, header := List.replicate headersize 97 })) := by
    have hnone : findUncomplete none 3 = none := rfl
    simp only [runCalls, List.foldlM_cons, List.foldlM_nil, Call.run, lfilter, filterData, hnone, freshData, scanHeader,
      if_true, hlong, saveHeader_handshake]
    rw [List.take_of_length_le (by simp)]
    rfl
  have hrecord : record (some (saveUncomplete none { id := 3, read := -1, header := List.replicate headersize 97 })) 3 =
      some { id := 3, read := -1, header := List.replicate headersize 97 } := by
    obtain ⟨-, hlinked, -⟩ := link_spec tableOk_new
      (show record none (Uncomplete.id { id := 3, read := -1, header := List.replicate headersize 97 }) = none from rfl)
    exact hlinked
  have hcall := hroom _ hfirst
  simp only [Call.Room, HeaderRoom, hrecord] at hcall
  rw [if_pos (by decide)] at hcall
  have := hcall.1 0 (by simp) (fun j hj hle => absurd hj (by omega))
  simp [storedHeader] at this

end SkynetServer.Websocket
