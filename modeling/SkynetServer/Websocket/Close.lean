import SkynetServer.Websocket.Stream

/-!
# Close frames

A peer that leaves sends a close frame behind its data frames. `read_size` answers `-3` on its first two bytes, and
the two places of `filter_data_` that look at the beginning of a chunk report the close. The loop of `push_more`,
which looks at what follows a packet inside a chunk, throws the two bytes away instead and reads the rest of the close
frame as frames of their own. So a close is honoured exactly when no chunk holds a byte of the data frames together
with both of these bytes.
-/

namespace SkynetServer.Websocket

structure CloseFrame where
  mask : Option (Fin 4 → UInt8)
  payload : List UInt8
  payload_le : payload.length ≤ 125

namespace CloseFrame

def head (c : CloseFrame) : List UInt8 := frameHead 8 .seven c.payload.length c.mask

def encode (c : CloseFrame) : List UInt8 := c.head ++ (maskKey c.mask ++ applyMask c.mask 0 c.payload)

/-- The first byte: FIN and opcode 8. -/
def first : UInt8 := UInt8.ofNat (128 + 8)

/-- The second byte: the mask bit and the length. -/
def second (c : CloseFrame) : UInt8 := UInt8.ofNat (maskBit c.mask + lengthCode .seven c.payload.length)

theorem head_eq (c : CloseFrame) : c.head = [first, c.second] := rfl

theorem length_encode_bounds (c : CloseFrame) : 2 ≤ c.encode.length ∧ c.encode.length ≤ 131 := by
  have := c.payload_le
  simp only [encode, head_eq, List.length_append, List.length_cons, List.length_nil, length_applyMask]
  cases c.mask <;> simp [maskKey] <;> omega

end CloseFrame

/-- The close frame behind the frames `fs` is honoured: some call reports the close right behind all the payloads,
and when that call starts at most one byte of the close frame has been looked at. -/
def CloseHonoured (fd : Int) (fs : List Frame) (chunks : List (List UInt8)) : Prop :=
  ∃ before chunk after L reports, chunks = before ++ chunk :: after ∧
    before.flatten.length ≤ (Frame.encodeAll fs).length + 1 ∧
    feedAll false none ((before ++ [chunk]).map fun x => (fd, x)) = .ok (L, reports) ∧
    reportsOf fd reports = (fs.map fun f => some f.payload) ++ [none]

/-- No chunk holds a byte of the data together with the first two bytes of the close frame: a chunk ends with the
data or with the first byte of the close frame. -/
def CloseSeparated (fs : List Frame) (chunks : List (List UInt8)) : Prop :=
  ∃ before after, chunks = before ++ after ∧
    (before.flatten.length = (Frame.encodeAll fs).length ∨
      before.flatten.length = (Frame.encodeAll fs).length + 1)

/-! ### Reading a close frame -/

theorem readSize_close (c : CloseFrame) (rest : List UInt8) (v : HeadVars) :
    readSize (CloseFrame.first :: c.second :: rest) v = (-3, v) := by
  obtain ⟨hfin, hrsv1, hrsv2, hrsv3, hop⟩ := firstByte 8
  have hfirst : CloseFrame.first = UInt8.ofNat (128 + (8 : Fin 16).val) := rfl
  have hone : ¬ ((1 : UInt8) = 0) := by decide
  have hzero : ¬ (UInt8.ofNat (8 : Fin 16).val = 0) := by decide
  have height : UInt8.ofNat (8 : Fin 16).val = 8 := rfl
  simp only [readSize]
  rw [if_neg (by simp)]
  simp only [List.getD_cons_zero, hfirst, hfin, hrsv1, hrsv2, hrsv3, hop, ne_eq, not_true_eq_false, or_self,
    if_false, hone, hzero]
  rw [if_pos height]

theorem scanHeader_close (c : CloseFrame) (rest : List UInt8) (v : HeadVars) :
    scanHeader isInvalid false (CloseFrame.first :: c.second :: rest) v =
      ⟨-3, v, CloseFrame.first :: c.second :: rest⟩ := by
  have hread := readSize_close c rest v
  rw [scanHeader, if_neg (by decide), skipFrames_of_not_refused (by rw [hread]; rfl), hread]
  simp [clampSize_of_nonpos]

theorem filterData_close {L : Option Queue} {fd : Int} (hnone : record L fd = none) (c : CloseFrame)
    (rest : List UInt8) :
    filterData L fd (CloseFrame.first :: c.second :: rest) false = .ok (closeUncomplete L fd, .close fd) := by
  rw [filterData, (findUncomplete_eq_none_iff L fd).mpr hnone]
  simp only [freshData, scanHeader_close]
  rfl

/-- Once the header is that of a close frame, the loop stores the rest of the chunk behind it. -/
theorem readHeader_close (c : CloseFrame) (header chunk : List UInt8) (hne : chunk ≠ [])
    (hclose : ∃ more, header ++ chunk = CloseFrame.first :: c.second :: more) (hheader : 1 ≤ header.length)
    (hroom : header.length + chunk.length ≤ headersize) :
    readHeader false header chunk {} = .ok ⟨-3, {}, header ++ chunk, []⟩ := by
  induction chunk generalizing header with
  | nil => exact absurd rfl hne
  | cons b chunk ih =>
    obtain ⟨more, hmore⟩ := hclose
    rw [List.length_cons] at hroom
    obtain ⟨stored, hstored⟩ : ∃ stored, header ++ [b] = CloseFrame.first :: c.second :: stored := by
      match header, hheader with
      | [_], _ => exact ⟨[], by simp_all⟩
      | _ :: _ :: tail, _ => exact ⟨tail ++ [b], by simp_all⟩
    rw [readHeader, if_neg (by omega), hstored, scanHeader_close, ← hstored]
    by_cases hnil : chunk = []
    · subst hnil
      rw [if_pos (.inr rfl)]
    · have hgo : ¬ ((0 : Int) ≤ -3 ∨ chunk = []) := by simp [hnil]
      have hassoc : header ++ b :: chunk = header ++ [b] ++ chunk := List.append_cons _ _ _
      rw [if_neg hgo, hassoc]
      exact ih (header ++ [b]) hnil ⟨more, hassoc.symm.trans hmore⟩ (by simp)
        (by rw [List.length_append, List.length_singleton]; omega)

theorem filterData_close_second {L : Option Queue} {fd : Int} {uc : Uncomplete} (hok : TableOk (getQueue L).hash)
    (hrecord : record L fd = some uc) (hread : uc.read = -1) (hheader : uc.header = [CloseFrame.first])
    (c : CloseFrame) {rest : List UInt8} (hlen : rest.length ≤ 1000) :
    ∃ L', filterData L fd (c.second :: rest) false = .ok (L', .close fd) := by
  obtain ⟨q, hfind⟩ := findUncomplete_of_record hok hrecord
  have hstep := readHeader_close c [CloseFrame.first] (c.second :: rest) (by simp) ⟨rest, rfl⟩ (by simp)
    (by simp only [List.length_cons, List.length_nil, headersize]; omega)
  refine ⟨closeUncomplete (some q) fd, ?_⟩
  rw [filterData, hfind]
  dsimp only
  rw [resumeData_of_readHeader q (by omega) (by rw [hheader]; exact hstep)]
  rfl

/-! ### Runs of one fd -/

theorem feedAll_append (handshake : Bool) (L : Option Queue) (xs ys : List (Int × List UInt8)) :
    feedAll handshake L (xs ++ ys) = do
      let (L, reports) ← feedAll handshake L xs
      let (L, more) ← feedAll handshake L ys
      return (L, reports ++ more) := by
  induction xs generalizing L with
  | nil =>
    simp only [List.nil_append, feedAll, pure_bind, List.nil_append]
    exact (bind_pure _).symm
  | cons x xs ih =>
    simp only [List.cons_append, feedAll, ih, bind_assoc, pure_bind, List.append_assoc]

theorem Waiting.tail_of_all {L : Option Queue} {fd : Int} {todo : List Frame} {cut : List UInt8} {b : UInt8}
    (hwait : Waiting L fd todo cut) (hall : cut = Frame.encodeAll todo ++ [b]) :
    todo = [] ∧ ∃ uc, record L fd = some uc ∧ uc.read = -1 ∧ uc.header = [b] := by
  cases hwait with
  | idle => simp at hall
  | begun _ _ hholds =>
    have hlen := hholds.length_lt
    rw [hall, encodeAll_cons, List.length_append, List.length_append] at hlen
    omega
  | tail hrecord _ hread hheader =>
    simp only [Frame.encodeAll, List.flatMap_nil, List.nil_append] at hall
    exact ⟨rfl, _, hrecord, hread, hheader.trans hall⟩

theorem feedAll_snoc {fd : Int} {before : List (List UInt8)} {L : Option Queue} {reports : List Report}
    (hrun : feedAll false none (before.map fun x => (fd, x)) = .ok (L, reports)) (chunk : List UInt8) :
    feedAll false none ((before ++ [chunk]).map fun x => (fd, x)) =
      (filterData L fd chunk false).map fun result =>
        ((collect result.1 result.2).1, reports ++ (collect result.1 result.2).2) := by
  rw [List.map_append, feedAll_append, hrun]
  change (do let (L, more) ← feedAll false L [(fd, chunk)]; return (L, reports ++ more)) = _
  simp only [feedAll, feed]
  cases filterData L fd chunk false with
  | error => rfl
  | ok result =>
    change Except.ok (_, reports ++ ((collect result.1 result.2).2 ++ [])) = _
    rw [List.append_nil]
    rfl

/-! ### When a close is honoured -/

theorem closeHonoured_of_step {fd : Int} {fs : List Frame} {before after : List (List UInt8)} {chunk : List UInt8}
    {L L' : Option Queue} {reports : List Report}
    (hlen : before.flatten.length ≤ (Frame.encodeAll fs).length + 1)
    (hrun : feedAll false none (before.map fun x => (fd, x)) = .ok (L, reports))
    (hreports : reportsOf fd reports = fs.map fun f => some f.payload)
    (hstep : filterData L fd chunk false = .ok (L', .close fd)) :
    CloseHonoured fd fs (before ++ chunk :: after) := by
  refine ⟨before, chunk, after, L', reports ++ [.close fd], rfl, hlen, ?_, ?_⟩
  · rw [feedAll_snoc hrun, hstep]
    rfl
  · rw [reportsOf_append, hreports]
    simp [reportsOf, Report.of]

/-- The data frames and the first byte of the close frame have arrived: the next chunk, whatever it is, starts with
the second byte. -/
theorem closeHonoured_behind_first {fd : Int} {fs : List Frame} {c : CloseFrame} {before after : List (List UInt8)}
    (hne : ∀ x ∈ before ++ after, x ≠ []) (hbefore : before.flatten = Frame.encodeAll fs ++ [CloseFrame.first])
    (hbytes : (before ++ after).flatten = Frame.encodeAll fs ++ c.encode) :
    CloseHonoured fd fs (before ++ after) := by
  obtain ⟨L, reports, done, left, cut, hrun, hok, -, hwait, hsplit, hconsumed, hreports⟩ :=
    @feedAll_one fd fs [CloseFrame.first] le_rfl before (fun x hx => hne x (List.mem_append_left _ hx))
      (hbefore ▸ List.prefix_rfl)
  rw [hbefore, hsplit, encodeAll_append, List.append_assoc, List.append_cancel_left_eq] at hconsumed
  obtain ⟨hleft, uc, hrecord, hread, hheader⟩ := hwait.tail_of_all hconsumed.symm
  rw [hleft, List.append_nil] at hsplit
  have hafter : after.flatten = c.second :: (maskKey c.mask ++ applyMask c.mask 0 c.payload) := by
    rw [List.flatten_append, hbefore, List.append_assoc, List.append_cancel_left_eq, CloseFrame.encode,
      c.head_eq] at hbytes
    exact (List.cons.inj hbytes).2
  cases after with
  | nil => simp at hafter
  | cons chunk after =>
    have hchunk := hne chunk (by simp)
    cases chunk with
    | nil => exact absurd rfl hchunk
    | cons b rest =>
      rw [List.flatten_cons, List.cons_append, List.cons.injEq] at hafter
      obtain ⟨rfl, hrest⟩ := hafter
      have hshort : rest.length ≤ 1000 := by
        have hbound := c.length_encode_bounds.2
        have hle := congrArg List.length hrest
        simp only [CloseFrame.encode, c.head_eq, List.length_append, List.length_cons] at hbound hle
        omega
      obtain ⟨L', hstep⟩ := filterData_close_second hok hrecord hread hheader c hshort
      refine closeHonoured_of_step ?_ hrun (hsplit ▸ hreports) hstep
      rw [hbefore, List.length_append, List.length_singleton]

theorem closeHonoured_of_separated {fd : Int} {fs : List Frame} {c : CloseFrame} {chunks : List (List UInt8)}
    (hne : ∀ x ∈ chunks, x ≠ []) (hbytes : chunks.flatten = Frame.encodeAll fs ++ c.encode)
    (hsep : CloseSeparated fs chunks) : CloseHonoured fd fs chunks := by
  obtain ⟨before, after, rfl, hlen⟩ := hsep
  have hpre : before.flatten <+: Frame.encodeAll fs ++ c.encode :=
    ⟨after.flatten, by rw [← List.flatten_append, hbytes]⟩
  have hcode : Frame.encodeAll fs ++ c.encode = Frame.encodeAll fs ++ [CloseFrame.first] ++
      c.second :: (maskKey c.mask ++ applyMask c.mask 0 c.payload) := by
    simp [CloseFrame.encode, c.head_eq]
  rcases hlen with hlen | hlen
  · have hbefore : before.flatten = Frame.encodeAll fs :=
      (List.prefix_of_prefix_length_le hpre (List.prefix_append _ _) hlen.le).eq_of_length hlen
    obtain ⟨L, reports, done, left, cut, hrun, hok, -, hwait, hsplit, hconsumed, hreports⟩ :=
      @feedAll_one fd fs [] (Nat.zero_le 1) before (fun x hx => hne x (List.mem_append_left _ hx))
        (hbefore ▸ List.prefix_append _ _)
    rw [hbefore, hsplit, encodeAll_append, List.append_cancel_left_eq] at hconsumed
    have hleft := hwait.eq_nil_of_all hconsumed.symm
    rw [hleft, List.append_nil] at hsplit
    have hafter : after.flatten = c.encode := by
      rwa [List.flatten_append, hbefore, List.append_cancel_left_eq] at hbytes
    match after, hafter, hne, hbytes with
    | [], hafter, _, _ => simp [CloseFrame.encode, c.head_eq] at hafter
    | [] :: _, _, hne, _ => exact absurd rfl (hne [] (by simp))
    | [b] :: after, hafter, hne, hbytes =>
      -- the chunk is the first byte alone: the next one decides
      rw [List.flatten_cons, CloseFrame.encode, c.head_eq] at hafter
      obtain ⟨rfl, -⟩ := List.cons.inj hafter
      have hassoc : before ++ [CloseFrame.first] :: after = before ++ [[CloseFrame.first]] ++ after := by simp
      rw [hassoc] at hne hbytes ⊢
      exact closeHonoured_behind_first hne (by rw [List.flatten_append, hbefore]; rfl) hbytes
    | (b :: b' :: rest) :: after, hafter, _, _ =>
      rw [List.flatten_cons, CloseFrame.encode, c.head_eq] at hafter
      simp only [List.cons_append, List.nil_append, List.cons.injEq] at hafter
      obtain ⟨rfl, rfl, -⟩ := hafter
      have hnone : record L fd = none := by
        rw [hleft] at hwait hconsumed
        cases hwait with
        | idle hnone => exact hnone
        | tail => simp [Frame.encodeAll] at hconsumed
      exact closeHonoured_of_step (by omega) hrun (hsplit ▸ hreports) (filterData_close hnone c rest)
  · refine closeHonoured_behind_first hne ?_ hbytes
    rw [hcode] at hpre
    exact (List.prefix_of_prefix_length_le hpre (List.prefix_append _ _) (by simp [hlen])).eq_of_length
      (by simp [hlen])

/-- A result that is neither a close nor an error reports payloads only. -/
theorem none_notMem_reportsOf_collect (L : Option Queue) {result : FilterResult} (fd : Int)
    (hclose : ∀ fd', result ≠ .close fd') : none ∉ reportsOf fd (collect L result).2 := by
  cases result with
  | data fd' => by_cases h : fd' = fd <;> simp [collect, reportsOf, Report.of, h]
  | more =>
    simp only [collect, reportsOf, List.mem_filterMap, List.mem_map]
    rintro ⟨_, ⟨np, -, rfl⟩, hreport⟩
    simp only [Report.of] at hreport
    split at hreport <;> simp at hreport
  | close fd' => exact absurd rfl (hclose fd')
  | _ => simp [collect, reportsOf]

theorem finishFrame_ne_close {L : Option Queue} {fd : Int} {f : Frame} {rest : List UInt8}
    {result : Option Queue × FilterResult} (h : finishFrame L fd f rest = .ok result) (fd' : Int) :
    result.2 ≠ .close fd' := by
  unfold finishFrame at h
  split at h
  · cases h
    simp
  · cases hmore : pushMore (pushData L fd f.payload f.payload.length) fd rest false with
    | error e =>
      rw [hmore] at h
      cases h
    | ok q =>
      rw [hmore] at h
      cases h
      simp

theorem closeSeparated_of_honoured {fd : Int} {fs : List Frame} {c : CloseFrame} {chunks : List (List UInt8)}
    (hne : ∀ x ∈ chunks, x ≠ []) (hbytes : chunks.flatten = Frame.encodeAll fs ++ c.encode)
    (hhonoured : CloseHonoured fd fs chunks) : CloseSeparated fs chunks := by
  obtain ⟨before, chunk, after, L, reports, rfl, hlen, hrun, hreports⟩ := hhonoured
  by_contra hsep
  have hshort : before.flatten.length < (Frame.encodeAll fs).length := by
    by_contra hle
    exact hsep ⟨before, chunk :: after, rfl, by omega⟩
  have hpre : before.flatten <+: Frame.encodeAll fs ++ c.encode :=
    ⟨(chunk :: after).flatten, by rw [← List.flatten_append, hbytes]⟩
  have hdata := List.prefix_of_prefix_length_le hpre (List.prefix_append _ _) hshort.le
  obtain ⟨L₀, reports₀, done, left, cut, hrun₀, hok, -, hwait, hsplit, hconsumed, hreports₀⟩ :=
    @feedAll_one fd fs [] (Nat.zero_le 1) before (fun x hx => hne x (List.mem_append_left _ hx))
      (hdata.trans (List.prefix_append _ _))
  cases left with
  | nil =>
    rw [hconsumed, hsplit, List.append_nil, List.length_append] at hshort
    omega
  | cons f left =>
    have hnext : cut ++ chunk <+: f.encode ++ (Frame.encodeAll left ++ c.encode) := by
      refine ⟨after.flatten, ?_⟩
      rw [List.flatten_append, List.flatten_cons, hconsumed, hsplit, encodeAll_append, encodeAll_cons] at hbytes
      simpa only [List.append_assoc, List.append_cancel_left_eq] using hbytes
    rw [feedAll_snoc hrun₀] at hrun
    -- no branch that continues a data frame reports a close
    have hstep : ∀ result, filterData L₀ fd chunk false = .ok result → ∀ fd', result.2 ≠ .close fd' := by
      intro result hresult fd'
      rcases filterData_frame hok hwait.begun_head (hne chunk (by simp)) hnext with
        ⟨_, hnothing, -⟩ | ⟨_, _, -, -, -, -, hfinish⟩
      · rw [hnothing] at hresult
        cases hresult
        simp
      · exact finishFrame_ne_close (hfinish.symm.trans hresult) fd'
    cases hfilter : filterData L₀ fd chunk false with
    | error e =>
      rw [hfilter] at hrun
      cases hrun
    | ok result =>
      rw [hfilter] at hrun
      cases hrun
      have hmem : none ∈ reportsOf fd (reports₀ ++ (collect result.1 result.2).2) := by
        rw [hreports]
        simp
      rw [reportsOf_append, List.mem_append, hreports₀] at hmem
      rcases hmem with hmem | hmem
      · simp at hmem
      · exact none_notMem_reportsOf_collect _ fd (hstep result hfilter) hmem

/-- **Close frames.** A close frame behind any data frames, however the bytes are cut into chunks, is honoured
exactly when a chunk ends with the data or with the first byte of the close frame. -/
theorem closeHonoured_iff_separated (fd : Int) (fs : List Frame) (c : CloseFrame) (chunks : List (List UInt8))
    (hne : ∀ x ∈ chunks, x ≠ []) (hbytes : chunks.flatten = Frame.encodeAll fs ++ c.encode) :
    CloseHonoured fd fs chunks ↔ CloseSeparated fs chunks :=
  ⟨closeSeparated_of_honoured hne hbytes, closeHonoured_of_separated hne hbytes⟩

/-- A close frame without a reason. -/
def bareClose : CloseFrame where
  mask := none
  payload := []
  payload_le := by decide

/-- The close frame comes in a chunk of its own. -/
theorem closeHonoured_own_chunk :
    CloseHonoured 3 [packFrame [1] (by decide)] [lpack [1], bareClose.encode] :=
  (closeHonoured_iff_separated 3 _ bareClose _ (by decide) (by decide)).mpr
    ⟨[lpack [1]], [bareClose.encode], rfl, .inl (by decide)⟩

/-- The same bytes in one chunk: the close is not honoured. -/
theorem not_closeHonoured_one_chunk :
    ¬ ∀ (fd : Int) (fs : List Frame) (c : CloseFrame) (chunks : List (List UInt8)), (∀ x ∈ chunks, x ≠ []) →
      chunks.flatten = Frame.encodeAll fs ++ c.encode → CloseHonoured fd fs chunks := by
  intro hall
  have hhonoured := hall 3 [packFrame [1] (by decide)] bareClose [lpack [1] ++ bareClose.encode] (by decide)
    (by decide)
  obtain ⟨before, after, hsplit, hlen⟩ := closeSeparated_of_honoured (c := bareClose) (by decide) (by decide) hhonoured
  have hdata : (Frame.encodeAll [packFrame [1] (by decide)]).length = 3 := by decide
  have hchunk : (lpack [1] ++ bareClose.encode).length = 5 := by decide
  match before, hsplit with
  | [], _ => simp [hdata] at hlen
  | [x], hsplit =>
    obtain ⟨rfl, -⟩ := List.cons.inj hsplit
    rw [List.flatten_singleton, hchunk, hdata] at hlen
    omega

end SkynetServer.Websocket
