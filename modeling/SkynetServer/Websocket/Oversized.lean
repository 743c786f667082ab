import SkynetServer.Websocket.Stream

/-!
# Frames above `MAX_PACKSIZE`

A length above `MAX_PACKSIZE` is clamped where it is read, and the clamped value is also what decides how many bytes
of the stream belong to the frame. After the header and `MAX_PACKSIZE` bytes the decoder is done with the frame, the
fd has no unfinished packet any more, and the next byte of the payload is looked at as the beginning of a header.
This happens to every frame that is too long, whatever the cut points.
-/

namespace SkynetServer.Websocket

/-! ### Staying in step -/

/-- The first `k` bytes of a stream, in the chunks they arrive in. -/
def arrived : Nat → List (List UInt8) → List (List UInt8)
  | _, [] => []
  | k, chunk :: chunks =>
    if k = 0 then []
    else if k ≤ chunk.length then [chunk.take k]
    else chunk :: arrived (k - chunk.length) chunks

/-- The decoder takes exactly the bytes of `frame` as belonging to it. As long as some of them are missing the fd has
an unfinished packet, so that no byte of the frame is looked at as the beginning of another header; with the last of
them it has none; and whatever is delivered for the frame, the frames behind it are delivered as they are. -/
structure InStep (fd : Int) (frame : List UInt8) (following : List Frame) (chunks : List (List UInt8)) : Prop where
  inside : ∀ k, 0 < k → k < frame.length → ∃ L reports,
    feedAll false none ((arrived k chunks).map fun chunk => (fd, chunk)) = .ok (L, reports) ∧ record L fd ≠ none
  behind : ∃ L reports, feedAll false none ((arrived frame.length chunks).map fun chunk => (fd, chunk)) =
    .ok (L, reports) ∧ record L fd = none
  delivered : ∃ L reports own, feedAll false none (chunks.map fun chunk => (fd, chunk)) = .ok (L, reports) ∧
    reportsOf fd reports = own ++ following.map fun f => some f.payload

theorem flatten_arrived (k : Nat) (chunks : List (List UInt8)) :
    (arrived k chunks).flatten = chunks.flatten.take k := by
  induction chunks generalizing k with
  | nil => simp [arrived]
  | cons chunk chunks ih =>
    rw [arrived, List.flatten_cons, List.take_append]
    split
    · next hzero => simp [hzero]
    split
    · next hle => simp [Nat.sub_eq_zero_of_le hle]
    · have hall : chunk.take k = chunk := List.take_of_length_le (by omega)
      rw [List.flatten_cons, ih, hall]

theorem nil_notMem_arrived {k : Nat} {chunks : List (List UInt8)} (hne : [] ∉ chunks) : [] ∉ arrived k chunks := by
  induction chunks generalizing k with
  | nil => simp [arrived]
  | cons chunk chunks ih =>
    rw [List.mem_cons, not_or] at hne
    rw [arrived]
    split
    · simp
    split
    · next hpos _ =>
      rw [List.mem_singleton]
      intro hnil
      rcases List.take_eq_nil_iff.mp hnil.symm with hzero | hchunk
      · exact hpos hzero
      · exact hne.1 hchunk.symm
    · rw [List.mem_cons, not_or]
      exact ⟨hne.1, ih hne.2⟩

/-! ### The frames -/

/-- A data frame with a length above `MAX_PACKSIZE` that an `int` holds. -/
structure OversizedFrame where
  opcode : Nat
  form : LengthForm
  mask : Option (Fin 4 → UInt8)
  payload : List UInt8
  opcode_lt : opcode < 16
  opcode_ne_zero : opcode ≠ 0
  opcode_ne_close : opcode ≠ 8
  form_fits : form.Fits payload.length
  payload_gt : maxPacksize < payload.length
  payload_lt : payload.length < 2 ^ 31

namespace OversizedFrame

def header (f : OversizedFrame) : List UInt8 := frameHeader f.opcode f.form f.payload.length f.mask

def body (f : OversizedFrame) : List UInt8 := applyMask f.mask 0 f.payload

def encode (f : OversizedFrame) : List UInt8 := f.header ++ f.body

/-- What the decoder takes for the frame. -/
def clamped (f : OversizedFrame) : List UInt8 := f.header ++ f.body.take maxPacksize

@[simp] theorem length_body (f : OversizedFrame) : f.body.length = f.payload.length := by simp [body]

theorem length_take_body (f : OversizedFrame) : (f.body.take maxPacksize).length = maxPacksize := by
  have := f.payload_gt
  rw [List.length_take, f.length_body]
  omega

theorem clamped_prefix (f : OversizedFrame) : f.clamped <+: f.encode :=
  (List.prefix_append_right_inj _).mpr (List.take_prefix _ _)

theorem length_clamped (f : OversizedFrame) : f.clamped.length = f.header.length + maxPacksize := by
  rw [clamped, List.length_append, f.length_take_body]

theorem length_clamped_lt (f : OversizedFrame) : f.clamped.length < f.encode.length := by
  have := f.payload_gt
  rw [length_clamped, encode, List.length_append, length_body]
  omega

theorem scanHeader_header (f : OversizedFrame) (rest : List UInt8) (v : HeadVars) :
    scanHeader isInvalid false (f.header ++ rest) v =
      ⟨maxPacksize, headVars v f.form f.payload.length f.mask, f.header ++ rest⟩ := by
  have hclamp : clampSize f.payload.length = maxPacksize := by
    have := f.payload_gt
    unfold clampSize
    rw [if_pos (by omega)]
  rw [header, scanHeader_frameHeader f.mask f.opcode_lt f.opcode_ne_zero f.opcode_ne_close f.form_fits
    f.payload_lt (isInvalid_natCast _), hclamp]

theorem scanHeader_cut (f : OversizedFrame) {cut : List UInt8} (hpre : cut <+: f.header)
    (hcut : cut.length < f.header.length) (v : HeadVars) : scanHeader isInvalid false cut v = ⟨-1, v, cut⟩ :=
  scanHeader_frameHeader_cut f.opcode_lt f.opcode_ne_zero f.opcode_ne_close f.form_fits rfl hpre hcut v

theorem drop_header (f : OversizedFrame) (rest : List UInt8) :
    (f.header ++ rest).drop (headVars {} f.form f.payload.length f.mask).packHeadLength = rest := by
  rw [packHeadLength_headVars f.opcode, header, List.drop_left]

/-! ### Inside a frame -/

/-- Of the bytes the decoder takes for `f`, `cut` has arrived. -/
inductive Taken (f : OversizedFrame) (L : Option Queue) (fd : Int) : List UInt8 → Prop where
  | start (hnone : record L fd = none) : Taken f L fd []
  | header {cut : List UInt8} {uc : Uncomplete} (hrecord : record L fd = some uc) (hid : uc.id = fd)
      (hread : uc.read = -1) (hheader : uc.header = cut) (hlen : cut.length < f.header.length) : Taken f L fd cut
  | body {part : List UInt8} {uc : Uncomplete} (hrecord : record L fd = some uc) (hid : uc.id = fd)
      (hread : uc.read = part.length) (hsize : uc.packSize = maxPacksize) (hlen : part.length < maxPacksize) :
      Taken f L fd (f.header ++ part)
  | all (hnone : record L fd = none) : Taken f L fd f.clamped

theorem Taken.record_eq_none {f : OversizedFrame} {L : Option Queue} {fd : Int} (h : Taken f L fd f.clamped) :
    record L fd = none := by
  have hlength := f.length_clamped
  generalize hcut : f.clamped = cut at h
  cases h with
  | start hnone => exact hnone
  | header _ _ _ _ hlen =>
    rw [hcut] at hlength
    omega
  | body _ _ _ _ hlen =>
    rw [hcut, List.length_append] at hlength
    omega
  | all hnone => exact hnone

theorem savePayload_fields (fd : Int) (v : HeadVars) (packSize : Nat) (buffer : List UInt8) :
    (savePayload fd v packSize buffer).id = fd ∧ (savePayload fd v packSize buffer).read = buffer.length ∧
      (savePayload fd v packSize buffer).packSize = packSize := by
  refine ⟨?_, rfl, rfl⟩
  simp only [savePayload, decodeWsmaskData]
  split <;> rfl

theorem fillPack_short {q : Queue} {fd : Int} {uc : Uncomplete} {buffer : List UInt8} {handshake : Bool}
    (hshort : buffer.length < (uc.packSize - uc.read).toNat) :
    ∃ uc', fillPack q fd uc buffer handshake = .ok (some (link q uc'), .nothing) ∧ uc'.id = uc.id ∧
      uc'.read = uc.read + buffer.length ∧ uc'.packSize = uc.packSize := by
  simp only [fillPack, if_pos hshort]
  refine ⟨_, rfl, ?_⟩
  unfold decodeWsmaskData
  split <;> exact ⟨rfl, rfl, rfl⟩

theorem fillPack_exact {q : Queue} {fd : Int} {uc : Uncomplete} {buffer : List UInt8} {handshake : Bool}
    (hexact : buffer.length = (uc.packSize - uc.read).toNat) :
    ∃ pack size, fillPack q fd uc buffer handshake = .ok (some q, .data fd pack size) := by
  have hlong : ¬ buffer.length < (uc.packSize - uc.read).toNat := by omega
  have hrest : buffer.drop (uc.packSize - uc.read).toNat = [] := List.drop_eq_nil_of_le (by omega)
  simp only [fillPack, if_neg hlong, hrest, if_true]
  exact ⟨_, _, rfl⟩

theorem freshData_taken (f : OversizedFrame) {L : Option Queue} {fd : Int} {chunk : List UInt8}
    (hok : TableOk (getQueue L).hash) (hnone : record L fd = none) (hpre : chunk <+: f.clamped) :
    ∃ L' result, freshData L fd chunk false = .ok (L', result) ∧ TableOk (getQueue L').hash ∧
      (collect L' result).1 = L' ∧ Taken f L' fd chunk := by
  rcases prefix_append_cases hpre with ⟨hinside, hlen⟩ | ⟨part, rfl, hpart⟩
  · have hsave : saveHeader fd chunk false = .ok (headerRecord fd chunk) := by
      have hroom := (frameHeader_bounds f.opcode f.form f.payload.length f.mask).2
      have hfits : ¬ headersize < chunk.length := by
        simp only [headersize]
        exact not_lt.mpr ((hlen.le.trans hroom).trans (by decide))
      simp [saveHeader, hfits, headerRecord]
    obtain ⟨htouch, hrecord⟩ := touches_saveUncomplete L (headerRecord fd chunk) hok hnone
    refine ⟨some (saveUncomplete L (headerRecord fd chunk)), .nothing, ?_, htouch.table, rfl,
      .header hrecord rfl rfl rfl hlen⟩
    simp only [freshData, f.scanHeader_cut hinside hlen, if_true, hsave]
    rfl
  · have hle := hpart.length_le
    rw [f.length_take_body] at hle
    by_cases hlen : part.length < maxPacksize
    · obtain ⟨hid, hread, hsize⟩ :=
        savePayload_fields fd (headVars {} f.form f.payload.length f.mask) maxPacksize part
      obtain ⟨htouch, hrecord⟩ := touches_saveUncomplete_of_id hok hid hnone
      refine ⟨_, .nothing, ?_, htouch.table, rfl, .body hrecord hid hread hsize hlen⟩
      simp only [freshData, f.scanHeader_header, f.drop_header]
      rw [if_neg (by omega), if_neg (by omega), if_neg (by omega), if_pos ⟨by omega, by decide⟩]
      rfl
    · have hexact : part.length = maxPacksize := by omega
      have hall : part = f.body.take maxPacksize := hpart.eq_of_length (by rw [hexact, f.length_take_body])
      have hdata : ∃ bytes, freshData L fd (f.header ++ part) false = .ok (L, .data fd bytes maxPacksize) := by
        simp only [freshData, f.scanHeader_header, f.drop_header, Int.toNat_natCast, hexact]
        rw [if_neg (by omega), if_neg (by omega), if_neg (by omega), if_neg (by simp), if_pos trivial]
        exact ⟨_, rfl⟩
      obtain ⟨bytes, hdata⟩ := hdata
      exact ⟨L, _, hdata, hok, rfl, hall ▸ .all hnone⟩

theorem fillPack_taken (f : OversizedFrame) {L : Option Queue} {q : Queue} {fd : Int} {uc : Uncomplete}
    {part chunk : List UInt8} (hfound : Touches fd L (some q) []) (hnone : record (some q) fd = none)
    (hid : uc.id = fd) (hread : uc.read = part.length) (hsize : uc.packSize = maxPacksize)
    (hpre : part ++ chunk <+: f.body.take maxPacksize) :
    ∃ L' result, fillPack q fd uc chunk false = .ok (L', result) ∧ TableOk (getQueue L').hash ∧
      (collect L' result).1 = L' ∧ Taken f L' fd (f.header ++ (part ++ chunk)) := by
  have hle := hpre.length_le
  rw [f.length_take_body, List.length_append] at hle
  have hneed : (uc.packSize - uc.read).toNat = maxPacksize - part.length := by
    rw [hsize, hread]
    omega
  by_cases hlen : part.length + chunk.length < maxPacksize
  · obtain ⟨uc', hfill, hid', hread', hsize'⟩ := @fillPack_short q fd uc chunk false (by rw [hneed]; omega)
    rw [hid] at hid'
    obtain ⟨htouch, hrecord⟩ := touches_saveUncomplete_of_id hfound.table hid' hnone
    refine ⟨_, _, hfill, htouch.table, rfl, .body hrecord hid' ?_ (hsize'.trans hsize) ?_⟩
    · rw [hread', hread, List.length_append, Nat.cast_add]
    · rw [List.length_append]
      exact hlen
  · obtain ⟨pack, size, hfill⟩ := @fillPack_exact q fd uc chunk false (by rw [hneed]; omega)
    have hall : part ++ chunk = f.body.take maxPacksize :=
      hpre.eq_of_length (by rw [f.length_take_body, List.length_append]; omega)
    exact ⟨_, _, hfill, hfound.table, rfl, hall ▸ .all hnone⟩

/-- **One chunk** of what the decoder takes for the frame. -/
theorem filterData_taken (f : OversizedFrame) {L : Option Queue} {fd : Int} {cut chunk : List UInt8}
    (hok : TableOk (getQueue L).hash) (htaken : Taken f L fd cut) (hne : chunk ≠ [])
    (hpre : cut ++ chunk <+: f.clamped) :
    ∃ L' result, filterData L fd chunk false = .ok (L', result) ∧ TableOk (getQueue L').hash ∧
      (collect L' result).1 = L' ∧ Taken f L' fd (cut ++ chunk) := by
  cases htaken with
  | start hnone =>
    rw [filterData, (findUncomplete_eq_none_iff L fd).mpr hnone]
    exact freshData_taken f hok hnone hpre
  | @header _ uc hrecord hid hread hheader hlen =>
    obtain ⟨q, hfind⟩ := findUncomplete_of_record hok hrecord
    obtain ⟨hfound, hnone⟩ := touches_findUncomplete hok hfind
    have hscan := f.scanHeader_header [] {}
    rw [List.append_nil] at hscan
    have hroom : f.header.length ≤ headersize := (frameHeader_bounds _ _ _ _).2.trans (by decide)
    rw [filterData, hfind]
    dsimp only
    rcases readHeader_of_scan hroom hscan (fun _ hinside hcut => f.scanHeader_cut hinside hcut {}) hlen hne hpre with
      ⟨hstep, hinside, hlen'⟩ | ⟨rest, heq, hrest, hstep⟩
    · rw [resumeData_of_readHeader q (by omega) (by rw [hheader]; exact hstep), if_pos rfl]
      obtain ⟨htouch, hrecord'⟩ :=
        @touches_saveUncomplete_of_id (some q) fd { uc with header := cut ++ chunk } hfound.table hid hnone
      exact ⟨_, _, rfl, htouch.table, rfl, .header hrecord' hid hread rfl hlen'⟩
    · rw [resumeData_of_readHeader q (by omega) (by rw [hheader]; exact hstep),
        if_neg (by dsimp only; omega), if_neg (by dsimp only; omega), if_neg (by dsimp only; omega)]
      dsimp only
      rw [heq]
      exact @fillPack_taken f L q fd _ [] rest hfound hnone hid rfl rfl hrest
  | @body part uc hrecord hid hread hsize hlen =>
    obtain ⟨q, hfind⟩ := findUncomplete_of_record hok hrecord
    obtain ⟨hfound, hnone⟩ := touches_findUncomplete hok hfind
    rw [List.append_assoc, clamped, List.prefix_append_right_inj] at hpre
    rw [filterData, hfind, List.append_assoc]
    dsimp only
    rw [resumeData, if_neg (by rw [hread]; omega)]
    exact fillPack_taken f hfound hnone hid hread hsize hpre
  | all hnone =>
    have hlen := hpre.length_le
    have hpos := List.length_pos_iff.mpr hne
    rw [List.length_append] at hlen
    omega

/-- **A run** over chunks that make up a beginning of it. -/
theorem feedAll_taken (f : OversizedFrame) (chunks : List (List UInt8)) {L : Option Queue} {fd : Int}
    {cut : List UInt8} (hok : TableOk (getQueue L).hash) (htaken : Taken f L fd cut) (hne : [] ∉ chunks)
    (hpre : cut ++ chunks.flatten <+: f.clamped) :
    ∃ L' reports, feedAll false L (chunks.map fun chunk => (fd, chunk)) = .ok (L', reports) ∧
      Taken f L' fd (cut ++ chunks.flatten) := by
  induction chunks generalizing L cut with
  | nil => exact ⟨L, [], rfl, by simpa using htaken⟩
  | cons chunk chunks ih =>
    rw [List.mem_cons, not_or] at hne
    rw [List.flatten_cons, ← List.append_assoc] at hpre ⊢
    obtain ⟨L', result, hstep, hok', hcollect, htaken'⟩ :=
      filterData_taken f hok htaken (Ne.symm hne.1) ((List.prefix_append _ _).trans hpre)
    obtain ⟨L'', reports, hrest, htaken''⟩ := ih hok' htaken' hne.2 hpre
    exact ⟨L'', _, feedAll_cons hstep (by rw [hcollect]; exact hrest), htaken''⟩

/-- With the header and `MAX_PACKSIZE` bytes of the payload the decoder is done with the frame. -/
theorem idle_at_clamped (f : OversizedFrame) (fd : Int) {chunks : List (List UInt8)} (hne : [] ∉ chunks)
    (hpre : f.encode <+: chunks.flatten) :
    ∃ L reports, feedAll false none ((arrived f.clamped.length chunks).map fun chunk => (fd, chunk)) =
      .ok (L, reports) ∧ record L fd = none := by
  have hflat : (arrived f.clamped.length chunks).flatten = f.clamped := by
    rw [flatten_arrived]
    exact (List.prefix_iff_eq_take.mp (f.clamped_prefix.trans hpre)).symm
  have hstart : Taken f none fd [] := .start (by simp [record, getQueue, Queue.new])
  obtain ⟨L, reports, hrun, htaken⟩ := feedAll_taken f (arrived f.clamped.length chunks) tableOk_new hstart
    (nil_notMem_arrived hne) (by rw [List.nil_append, hflat])
  rw [List.nil_append, hflat] at htaken
  exact ⟨L, reports, hrun, htaken.record_eq_none⟩

theorem take_body (f : OversizedFrame) : f.body.take maxPacksize = applyMask f.mask 0 (f.payload.take maxPacksize) := by
  have hlen : (applyMask f.mask 0 (f.payload.take maxPacksize)).length = maxPacksize := by
    have := f.payload_gt
    rw [length_applyMask, List.length_take]
    omega
  have hsplit := applyMask_append f.mask 0 (f.payload.take maxPacksize) (f.payload.drop maxPacksize)
  rw [List.take_append_drop] at hsplit
  rw [body, hsplit, List.take_left' hlen]

/-- A frame that comes in one chunk: the first `MAX_PACKSIZE` bytes of its payload are delivered, and the others go
through `push_more` like the beginning of the next frame. -/
theorem freshData_encode (f : OversizedFrame) (L : Option Queue) (fd : Int) (rest : List UInt8) :
    freshData L fd (f.encode ++ rest) false =
      (pushMore (pushData L fd (f.payload.take maxPacksize) maxPacksize) fd (f.body.drop maxPacksize ++ rest)
        false).map fun q => (some q, .more) := by
  obtain ⟨hkey, hzero⟩ := key_ofVars_headVars fd f.form f.payload.length f.mask
  have hgt := f.payload_gt
  have hlen : (f.body ++ rest).length = f.payload.length + rest.length := by
    rw [List.length_append, f.length_body]
  have htake : (f.body ++ rest).take maxPacksize = f.body.take maxPacksize :=
    List.take_append_of_le_length (by rw [f.length_body]; omega)
  have hdrop : (f.body ++ rest).drop maxPacksize = f.body.drop maxPacksize ++ rest :=
    List.drop_append_of_le_length (by rw [f.length_body]; omega)
  have hdecode : (decodeWsmaskData (f.body.take maxPacksize)
      (.ofVars fd (headVars {} f.form f.payload.length f.mask))).1 = f.payload.take maxPacksize := by
    rw [decodeWsmaskData_fst, hkey, hzero, f.take_body, applyMask_applyMask]
  simp only [freshData, encode, List.append_assoc, f.scanHeader_header, f.drop_header, Int.toNat_natCast, htake,
    hdrop, hdecode]
  rw [if_neg (by omega), if_neg (by omega), if_neg (by omega), if_neg (by omega), if_neg (by omega)]
  rfl

end OversizedFrame

/-- **Out of step.** Behind the first `MAX_PACKSIZE` bytes of its payload every frame that is longer leaves the
decoder without an unfinished packet, whatever follows it and however the stream is cut. -/
theorem not_inStep_oversized (fd : Int) (f : OversizedFrame) (following : List Frame) (chunks : List (List UInt8))
    (hne : [] ∉ chunks) (hsplit : chunks.flatten = f.encode ++ Frame.encodeAll following) :
    ¬ InStep fd f.encode following chunks := by
  intro hstep
  have hpos : 0 < f.clamped.length := by
    rw [f.length_clamped]
    exact Nat.add_pos_right _ (by decide)
  obtain ⟨L, reports, hrun, hnone⟩ := f.idle_at_clamped fd hne (hsplit ▸ List.prefix_append _ _)
  obtain ⟨L', reports', hrun', hsome⟩ := hstep.inside f.clamped.length hpos f.length_clamped_lt
  rw [hrun] at hrun'
  cases hrun'
  exact hsome hnone

theorem zeros_bounds : maxPacksize < (List.replicate (maxPacksize + 1) (0 : UInt8)).length ∧
    (List.replicate (maxPacksize + 1) (0 : UInt8)).length < 2 ^ 16 ∧
    (List.replicate (maxPacksize + 1) (0 : UInt8)).length < 2 ^ 31 := by
  rw [List.length_replicate]
  decide

/-- A ping with one byte too much, all of them zero. -/
def zeroFrame : OversizedFrame where
  opcode := 9
  form := .sixteen
  mask := none
  payload := List.replicate (maxPacksize + 1) 0
  opcode_lt := by decide
  opcode_ne_zero := by decide
  opcode_ne_close := by decide
  form_fits := zeros_bounds.2.1
  payload_gt := zeros_bounds.1
  payload_lt := zeros_bounds.2.2

theorem not_inStep_oversized_zero : ¬ InStep 7 zeroFrame.encode [] [zeroFrame.encode] :=
  not_inStep_oversized 7 zeroFrame [] [zeroFrame.encode]
    (by
      rw [List.mem_singleton]
      exact fun h => absurd (h ▸ zeroFrame.length_clamped_lt) (Nat.not_lt_zero _))
    (by simp [Frame.encodeAll])

/-- The frame `82 01 41`. -/
def letterFrame : Frame := packFrame [65] (by decide)

/-- Behind `zeroFrame` it is thrown away, two bytes at a time from the zero byte on. -/
theorem filterData_zeroFrame :
    ∃ q, filterData none 7 (zeroFrame.encode ++ letterFrame.encode) false = .ok (some q, .more) ∧
      Touches 7 none (some q) [⟨7, maxPacksize, zeroFrame.payload.take maxPacksize⟩] := by
  have hnone : record none 7 = none := by simp [record, getQueue, Queue.new]
  have hdrop : zeroFrame.body.drop maxPacksize = [0] := by
    change (List.replicate (maxPacksize + 1) 0).drop maxPacksize = [0]
    rw [List.drop_replicate, Nat.add_sub_cancel_left]
    rfl
  have hscan : scanHeader isInvalidOrClose false (0 :: letterFrame.encode) {} = ⟨-1, {}, []⟩ := rfl
  have hpush := touches_pushData (L := none) tableOk_new 7 (zeroFrame.payload.take maxPacksize) maxPacksize
  obtain ⟨htouch, -⟩ := @touches_saveUncomplete_of_id _ 7 (headerRecord 7 []) hpush.table rfl
    ((record_pushData none 7 _ _ 7).trans hnone)
  refine ⟨_, ?_, hpush.trans htouch⟩
  rw [filterData, (findUncomplete_eq_none_iff none 7).mpr hnone]
  dsimp only
  rw [zeroFrame.freshData_encode, hdrop, List.singleton_append, pushMore]
  simp only [hscan, if_true, saveHeader, headersize]
  rfl

theorem not_inStep_zeroFrame :
    ¬ InStep 7 zeroFrame.encode [letterFrame] [zeroFrame.encode ++ letterFrame.encode] := by
  intro hstep
  obtain ⟨q, hfilter, htouch⟩ := filterData_zeroFrame
  obtain ⟨hreports, -, -⟩ := collect_more packets_none htouch
  obtain ⟨L, reports, own, hrun, hown⟩ := hstep.delivered
  have hfeed : feedAll false none ([zeroFrame.encode ++ letterFrame.encode].map fun chunk => (7, chunk)) = _ :=
    feedAll_cons hfilter rfl
  rw [hfeed] at hrun
  cases hrun
  rw [List.append_nil, hreports] at hown
  change [] ++ [some ((zeroFrame.payload.take maxPacksize).take maxPacksize)] = own ++ [some [65]] at hown
  have hlast := List.singleton_inj.mp (List.append_inj_right' hown rfl)
  have hlen := congrArg List.length (Option.some.inj hlast)
  rw [List.length_take, List.length_take, show zeroFrame.payload.length = maxPacksize + 1 from List.length_replicate,
    show ([65] : List UInt8).length = 1 from rfl, show maxPacksize = 10240 from rfl] at hlen
  omega

/-! ### The frames the decoder has room for -/

/-- Inside the first of some frames the fd has a record, and behind it it has none. -/
theorem Waiting.record_iff {L : Option Queue} {fd : Int} {f : Frame} {following done left : List Frame}
    {cut bytes : List UInt8} (hwait : Waiting L fd left cut) (hsplit : f :: following = done ++ left)
    (hbytes : bytes = Frame.encodeAll done ++ cut) (hpos : 0 < bytes.length) (hle : bytes.length ≤ f.encode.length) :
    record L fd = none ↔ bytes.length = f.encode.length := by
  cases done with
  | nil =>
    rw [List.nil_append] at hsplit
    rw [show Frame.encodeAll [] = [] from rfl, List.nil_append] at hbytes
    subst hsplit hbytes
    cases hwait with
    | idle => simp at hpos
    | begun _ hrecord hholds =>
      have := hholds.length_lt
      simp only [hrecord, reduceCtorEq, false_iff]
      omega
  | cons g done =>
    rw [List.cons_append, List.cons.injEq] at hsplit
    have hlen := congrArg List.length hbytes
    rw [encodeAll_cons, ← hsplit.1, List.length_append, List.length_append] at hlen
    have hcut : cut = [] := List.eq_nil_of_length_eq_zero (by omega)
    subst hcut
    have hnone : record L fd = none := by
      cases hwait with
      | idle hnone => exact hnone
      | begun hne => exact absurd rfl hne
    simp only [hnone, true_iff]
    omega

/-- Every other data frame keeps the decoder in step. -/
theorem inStep_frame (fd : Int) (f : Frame) (following : List Frame) {chunks : List (List UInt8)}
    (hne : [] ∉ chunks) (hsplit : chunks.flatten = f.encode ++ Frame.encodeAll following) :
    InStep fd f.encode following chunks := by
  have hrun : ∀ k, 0 < k → k ≤ f.encode.length → ∃ L reports,
      feedAll false none ((arrived k chunks).map fun chunk => (fd, chunk)) = .ok (L, reports) ∧
        (record L fd = none ↔ k = f.encode.length) := by
    intro k hpos hle
    have hflat : (arrived k chunks).flatten = f.encode.take k := by
      rw [flatten_arrived, hsplit, List.take_append_of_le_length hle]
    have hlen : (f.encode.take k).length = k := by
      rw [List.length_take]
      omega
    obtain ⟨L, reports, done, left, cut, hok, -, -, hwait, hframes, hbytes, -⟩ :=
      @feedAll_one fd (f :: following) [] (Nat.zero_le 1) (arrived k chunks)
        (fun x hx hnil => nil_notMem_arrived hne (hnil ▸ hx))
        (by rw [hflat, encodeAll_cons, List.append_assoc]
            exact (List.take_prefix _ _).trans (List.prefix_append _ _))
    rw [hflat] at hbytes
    refine ⟨L, reports, hok, ?_⟩
    rw [hwait.record_iff hframes hbytes (by omega) (by omega), hlen]
  have hpos := List.length_pos_iff.mpr f.encode_ne_nil
  refine ⟨fun k hk hlt => ?_, ?_, ?_⟩
  · obtain ⟨L, reports, hok, hiff⟩ := hrun k hk hlt.le
    exact ⟨L, reports, hok, fun hnone => absurd (hiff.mp hnone) hlt.ne⟩
  · obtain ⟨L, reports, hok, hiff⟩ := hrun f.encode.length hpos le_rfl
    exact ⟨L, reports, hok, hiff.mpr rfl⟩
  · obtain ⟨L, reports, done, left, cut, hok, -, -, hwait, hframes, hbytes, hreports⟩ :=
      @feedAll_one fd (f :: following) [] (Nat.zero_le 1) chunks (fun x hx hnil => hne (hnil ▸ hx))
        (by rw [hsplit, encodeAll_cons, List.append_nil])
    rw [hsplit, ← encodeAll_cons, hframes, encodeAll_append, List.append_cancel_left_eq] at hbytes
    rw [hwait.eq_nil_of_all hbytes.symm, List.append_nil] at hframes
    refine ⟨L, reports, [some f.payload], hok, ?_⟩
    rw [hreports, ← hframes]
    rfl

end SkynetServer.Websocket
