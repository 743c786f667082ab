import SkynetServer.Websocket.Frame

/-!
# One chunk against one frame

What a single call of `filter_data_` or one round of `push_more` does when the bytes it sees belong to a frame, in
each of the states the frame can be in: not begun, inside its header, inside its body. The bytes behind the frame
are arbitrary here; what they mean is the business of the modules above.
-/

namespace SkynetServer.Websocket

/-! ### The record of a frame that has begun -/

/-- `uc` has collected the beginning `part` of the body of `f`. -/
structure PayloadPart (f : Frame) (fd : Int) (part : List UInt8) (uc : Uncomplete) : Prop where
  id_eq : uc.id = fd
  read_eq : uc.read = part.length
  size_eq : uc.packSize = f.payload.length
  buffer_eq : uc.packBuffer = applyMask f.mask 0 part
  key_eq : uc.key = f.mask
  phase_eq : uc.ismask → uc.hasunmaskSize = part.length

/-- `uc` is what the table must hold for `fd` once `cut`, a beginning of `f`, has arrived. -/
inductive Holds (f : Frame) (fd : Int) : List UInt8 → Uncomplete → Prop where
  | header {cut : List UInt8} {uc : Uncomplete} (hid : uc.id = fd) (hread : uc.read = -1)
      (hheader : uc.header = cut) (hpre : cut <+: f.header) (hlen : cut.length < f.header.length) :
      Holds f fd cut uc
  | payload {part : List UInt8} {uc : Uncomplete} (hpart : PayloadPart f fd part uc)
      (hpre : part <+: f.body) (hlen : part.length < f.body.length) :
      Holds f fd (f.header ++ part) uc

theorem Holds.id_eq {f : Frame} {fd : Int} {cut : List UInt8} {uc : Uncomplete} (h : Holds f fd cut uc) :
    uc.id = fd := by
  cases h with
  | header hid => exact hid
  | payload hpart => exact hpart.id_eq

theorem Holds.length_lt {f : Frame} {fd : Int} {cut : List UInt8} {uc : Uncomplete} (h : Holds f fd cut uc) :
    cut.length < f.encode.length := by
  cases h with
  | header _ _ _ _ hlen => simp only [Frame.encode, List.length_append]; omega
  | payload _ _ hlen => simp only [Frame.encode, List.length_append]; omega

/-- Of the frame `f` that `fd` sends next, `cut` has arrived. -/
inductive Begun (L : Option Queue) (fd : Int) (f : Frame) : List UInt8 → Prop where
  | idle (hnone : record L fd = none) : Begun L fd f []
  | held {cut : List UInt8} {uc : Uncomplete} (hne : cut ≠ []) (hrecord : record L fd = some uc)
      (hholds : Holds f fd cut uc) : Begun L fd f cut

/-- A change to the queue that concerns `fd` only: packets are appended, records of other fds stay. -/
structure Touches (fd : Int) (L L' : Option Queue) (pushed : List Netpack) : Prop where
  table : TableOk (getQueue L').hash
  other : ∀ fd' ≠ fd, record L' fd' = record L fd'
  packets_eq : packets L' = packets L ++ pushed

def Frame.pack (fd : Int) (f : Frame) : Netpack := ⟨fd, f.payload.length, f.payload⟩

theorem record_pushData (L : Option Queue) (fd : Int) (buffer : List UInt8) (size : Nat) (fd' : Int) :
    record (some (pushData L fd buffer size)) fd' = record L fd' := by
  simp [record]

theorem touches_pushData {L : Option Queue} (hok : TableOk (getQueue L).hash) (fd : Int) (buffer : List UInt8)
    (size : Nat) : Touches fd L (some (pushData L fd buffer size)) [⟨fd, size, buffer⟩] where
  table := by rw [getQueue_some, hash_pushData]; exact hok
  other := fun fd' _ => record_pushData L fd buffer size fd'
  packets_eq := packets_pushData L fd buffer size

theorem Touches.trans {fd : Int} {L₁ L₂ L₃ : Option Queue} {pushed pushed' : List Netpack}
    (h : Touches fd L₁ L₂ pushed) (h' : Touches fd L₂ L₃ pushed') : Touches fd L₁ L₃ (pushed ++ pushed') where
  table := h'.table
  other := fun fd' hne => (h'.other fd' hne).trans (h.other fd' hne)
  packets_eq := by rw [h'.packets_eq, h.packets_eq, List.append_assoc]

theorem touches_saveUncomplete (L : Option Queue) (uc : Uncomplete) (hok : TableOk (getQueue L).hash)
    (hnone : record L uc.id = none) :
    Touches uc.id L (some (saveUncomplete L uc)) [] ∧ record (some (saveUncomplete L uc)) uc.id = some uc := by
  obtain ⟨htable, hself, hother, hpackets⟩ := link_spec (q := getQueue L) hok hnone
  refine ⟨⟨htable, hother, ?_⟩, hself⟩
  rw [List.append_nil]
  exact hpackets

theorem touches_saveUncomplete_of_id {L : Option Queue} {fd : Int} {uc : Uncomplete}
    (hok : TableOk (getQueue L).hash) (hid : uc.id = fd) (hnone : record L fd = none) :
    Touches fd L (some (saveUncomplete L uc)) [] ∧ record (some (saveUncomplete L uc)) fd = some uc := by
  subst hid
  exact touches_saveUncomplete L uc hok hnone

theorem record_eq_of_hash_eq {L L' : Option Queue} (h : (getQueue L').hash = (getQueue L).hash) (fd : Int) :
    record L' fd = record L fd := by
  simp [record, h]

theorem touches_findUncomplete {L : Option Queue} {fd : Int} {uc : Uncomplete} {q : Queue}
    (hok : TableOk (getQueue L).hash) (h : findUncomplete L fd = some (uc, q)) :
    Touches fd L (some q) [] ∧ record (some q) fd = none := by
  obtain ⟨-, -, hok', hnone, hother, hpackets⟩ := findUncomplete_some hok h
  exact ⟨⟨hok', hother, by rw [hpackets, List.append_nil]⟩, hnone⟩

/-! ### Cutting a frame -/

theorem isInvalid_natCast (n : Nat) : isInvalid n = false := by
  simp [isInvalid]

theorem isInvalidOrClose_natCast (n : Nat) : isInvalidOrClose n = false := by
  simp [isInvalidOrClose]
  omega

/-- A beginning of two pieces ends inside the first or behind it. -/
theorem prefix_append_cases {first second buffer : List UInt8} (h : buffer <+: first ++ second) :
    (buffer <+: first ∧ buffer.length < first.length) ∨ ∃ rest, buffer = first ++ rest ∧ rest <+: second := by
  by_cases hlen : buffer.length < first.length
  · exact .inl ⟨List.prefix_of_prefix_length_le h (List.prefix_append _ _) hlen.le, hlen⟩
  · obtain ⟨rest, rfl⟩ : first <+: buffer :=
      List.prefix_of_prefix_length_le (List.prefix_append _ _) h (by omega)
    exact .inr ⟨rest, rfl, (List.prefix_append_right_inj _).mp h⟩

/-- A beginning of a frame and what follows it ends inside the header, inside the body, or behind the frame. -/
theorem prefix_encode_cases {f : Frame} {after buffer : List UInt8} (h : buffer <+: f.encode ++ after) :
    (buffer <+: f.header ∧ buffer.length < f.header.length) ∨
      (∃ part, buffer = f.header ++ part ∧ part <+: f.body ∧ part.length < f.body.length) ∨
      ∃ rest, buffer = f.encode ++ rest ∧ rest <+: after := by
  rw [Frame.encode, List.append_assoc] at h
  rcases prefix_append_cases h with hhead | ⟨part, rfl, hpart⟩
  · exact .inl hhead
  · rcases prefix_append_cases hpart with ⟨hbody, hlen⟩ | ⟨rest, rfl, hrest⟩
    · exact .inr (.inl ⟨part, rfl, hbody, hlen⟩)
    · exact .inr (.inr ⟨rest, (List.append_assoc _ _ _).symm, hrest⟩)

theorem PayloadPart.decode {f : Frame} {fd : Int} {part : List UInt8} {uc : Uncomplete}
    (h : PayloadPart f fd part uc) (bytes : List UInt8) :
    uc.packBuffer ++ (decodeWsmaskData bytes uc).1 = applyMask f.mask 0 (part ++ bytes) := by
  rw [decodeWsmaskData_fst, applyMask_append, h.buffer_eq, Nat.add_zero, ← h.key_eq]
  by_cases hmask : uc.ismask
  · rw [h.phase_eq hmask]
  · simp [Uncomplete.key, hmask, applyMask]

theorem PayloadPart.extend {f : Frame} {fd : Int} {part : List UInt8} {uc : Uncomplete}
    (h : PayloadPart f fd part uc) (bytes : List UInt8) :
    PayloadPart f fd (part ++ bytes)
      { (decodeWsmaskData bytes uc).2 with
        packBuffer := (decodeWsmaskData bytes uc).2.packBuffer ++ (decodeWsmaskData bytes uc).1
        read := (decodeWsmaskData bytes uc).2.read + bytes.length } := by
  have hdecode := h.decode bytes
  unfold decodeWsmaskData at hdecode ⊢
  split
  · rename_i hmask
    rw [if_pos hmask] at hdecode
    refine ⟨h.id_eq, ?_, h.size_eq, hdecode, h.key_eq, fun _ => ?_⟩
    · simp [h.read_eq]
    · simp [h.phase_eq hmask]
  · rename_i hmask
    rw [if_neg hmask] at hdecode
    refine ⟨h.id_eq, ?_, h.size_eq, hdecode, h.key_eq, fun hmask' => absurd hmask' hmask⟩
    simp [h.read_eq]

theorem payloadPart_savePayload (f : Frame) (fd : Int) (part : List UInt8) :
    PayloadPart f fd part
      (savePayload fd (headVars {} f.form f.payload.length f.mask) f.payload.length part) := by
  obtain ⟨hkey, hzero⟩ := key_ofVars_headVars fd f.form f.payload.length f.mask
  refine ⟨?_, rfl, rfl, ?_, ?_, ?_⟩
  · simp only [savePayload, decodeWsmaskData]
    split <;> rfl
  · simp only [savePayload, decodeWsmaskData_fst, hkey, hzero]
  · rw [← hkey]
    simp only [savePayload, decodeWsmaskData, Uncomplete.key]
    split <;> rfl
  · simp only [savePayload, decodeWsmaskData]
    split
    · intro _
      simp [hzero]
    · intro h
      exact absurd h (by assumption)

/-- The record of a header that is cut short. -/
def headerRecord (fd : Int) (cut : List UInt8) : Uncomplete := { id := fd, read := -1, header := cut }

theorem saveHeader_cut (f : Frame) (fd : Int) {cut : List UInt8} (hlen : cut.length < f.header.length) :
    saveHeader fd cut false = .ok (headerRecord fd cut) := by
  have := f.header_bounds.2
  have hroom : ¬ headersize < cut.length := by
    simp only [headersize]
    omega
  simp [saveHeader, hroom, headerRecord]

theorem drop_header (f : Frame) (rest : List UInt8) :
    (f.header ++ rest).drop (headVars {} f.form f.payload.length f.mask).packHeadLength = rest := by
  rw [packHeadLength_headVars f.opcode, Frame.header, List.drop_left]

theorem take_body (f : Frame) (rest : List UInt8) : (f.body ++ rest).take f.payload.length = f.body := by
  rw [← f.length_body, List.take_left]

theorem drop_body (f : Frame) (rest : List UInt8) : (f.body ++ rest).drop f.payload.length = rest := by
  rw [← f.length_body, List.drop_left]

theorem decode_body (f : Frame) (fd : Int) :
    (decodeWsmaskData f.body (.ofVars fd (headVars {} f.form f.payload.length f.mask))).1 = f.payload := by
  obtain ⟨hkey, hzero⟩ := key_ofVars_headVars fd f.form f.payload.length f.mask
  rw [decodeWsmaskData_fst, hkey, hzero, f.applyMask_body]

/-- What a call does with the bytes `rest` behind a completed frame. -/
def finishFrame (L : Option Queue) (fd : Int) (f : Frame) (rest : List UInt8) :
    Except Fault (Option Queue × FilterResult) :=
  if rest = [] then .ok (L, .data fd f.payload f.payload.length)
  else (pushMore (pushData L fd f.payload f.payload.length) fd rest false).map fun q => (some q, .more)

/-! ### `push_more` -/

theorem pushMore_cut (f : Frame) (q : Queue) (fd : Int) {cut : List UInt8} (hpre : cut <+: f.header)
    (hlen : cut.length < f.header.length) :
    pushMore q fd cut false = .ok (saveUncomplete (some q) (headerRecord fd cut)) := by
  rw [pushMore]
  simp only [f.scanHeader_cut isInvalidOrClose rfl hpre hlen, if_true, saveHeader_cut f fd hlen]
  rfl

theorem pushMore_part (f : Frame) (q : Queue) (fd : Int) {part : List UInt8} (hlen : part.length < f.body.length) :
    pushMore q fd (f.header ++ part) false =
      .ok (saveUncomplete (some q)
        (savePayload fd (headVars {} f.form f.payload.length f.mask) f.payload.length part)) := by
  rw [Frame.length_body] at hlen
  rw [pushMore]
  simp only [f.scanHeader_header _ isInvalidOrClose_natCast, drop_header]
  rw [if_neg (by omega), if_pos ⟨by omega, by decide⟩]
  rfl

theorem pushMore_frame (f : Frame) (q : Queue) (fd : Int) (rest : List UInt8) :
    pushMore q fd (f.encode ++ rest) false =
      if rest = [] then .ok (pushData (some q) fd f.payload f.payload.length)
      else pushMore (pushData (some q) fd f.payload f.payload.length) fd rest false := by
  rw [pushMore]
  simp only [Frame.encode, List.append_assoc, f.scanHeader_header _ isInvalidOrClose_natCast, drop_header,
    Int.toNat_natCast]
  rw [if_neg (by omega), if_neg (by simp), take_body, drop_body, decode_body]
  rfl

/-! ### A fresh chunk -/

theorem freshData_cut (f : Frame) (L : Option Queue) (fd : Int) {cut : List UInt8} (hpre : cut <+: f.header)
    (hlen : cut.length < f.header.length) :
    freshData L fd cut false = .ok (some (saveUncomplete L (headerRecord fd cut)), .nothing) := by
  simp only [freshData, f.scanHeader_cut isInvalid rfl hpre hlen, if_true, saveHeader_cut f fd hlen]
  rfl

theorem freshData_part (f : Frame) (L : Option Queue) (fd : Int) {part : List UInt8}
    (hlen : part.length < f.body.length) :
    freshData L fd (f.header ++ part) false =
      .ok (some (saveUncomplete L
        (savePayload fd (headVars {} f.form f.payload.length f.mask) f.payload.length part)), .nothing) := by
  rw [f.length_body] at hlen
  simp only [freshData, f.scanHeader_header _ isInvalid_natCast, drop_header]
  rw [if_neg (by omega), if_neg (by omega), if_neg (by omega), if_pos ⟨by omega, by decide⟩]
  rfl

theorem freshData_frame (f : Frame) (L : Option Queue) (fd : Int) (rest : List UInt8) :
    freshData L fd (f.encode ++ rest) false = finishFrame L fd f rest := by
  simp only [freshData, Frame.encode, List.append_assoc, f.scanHeader_header _ isInvalid_natCast, drop_header,
    Int.toNat_natCast, take_body, drop_body, decode_body]
  rw [if_neg (by omega), if_neg (by omega), if_neg (by omega), if_neg (by simp)]
  have hlen : (f.body ++ rest).length = f.payload.length ↔ rest = [] := by simp
  simp only [hlen]
  rfl

/-! ### Filling a payload -/

theorem PayloadPart.need_eq {f : Frame} {fd : Int} {part : List UInt8} {uc : Uncomplete}
    (h : PayloadPart f fd part uc) : (uc.packSize - uc.read).toNat = f.body.length - part.length := by
  rw [h.size_eq, h.read_eq, f.length_body]
  omega

theorem fillPack_part {f : Frame} {fd : Int} {part chunk : List UInt8} {uc : Uncomplete} (q : Queue)
    (hpart : PayloadPart f fd part uc) (hlen : (part ++ chunk).length < f.body.length) :
    ∃ uc', fillPack q fd uc chunk false = .ok (some (link q uc'), .nothing) ∧
      PayloadPart f fd (part ++ chunk) uc' := by
  rw [List.length_append] at hlen
  refine ⟨_, ?_, hpart.extend chunk⟩
  simp only [fillPack, hpart.need_eq]
  rw [if_pos (by omega)]
  rfl

theorem fillPack_frame {f : Frame} {fd : Int} {part chunk rest : List UInt8} {uc : Uncomplete} (q : Queue)
    (hpart : PayloadPart f fd part uc) (hpre : part <+: f.body) (heq : part ++ chunk = f.body ++ rest) :
    fillPack q fd uc chunk false = finishFrame (some q) fd f rest := by
  obtain ⟨filled, hfilled⟩ := hpre
  rw [← hfilled, List.append_assoc, List.append_cancel_left_eq] at heq
  subst heq
  have hcount : f.body.length - part.length = filled.length := by rw [← hfilled, List.length_append]; omega
  have hpack : uc.packBuffer ++ (decodeWsmaskData filled uc).1 = f.payload := by
    rw [hpart.decode, hfilled, f.applyMask_body]
  have hkeep : (decodeWsmaskData filled uc).2.packBuffer = uc.packBuffer ∧
      (decodeWsmaskData filled uc).2.packSize = f.payload.length := by
    unfold decodeWsmaskData
    split <;> exact ⟨rfl, hpart.size_eq⟩
  have hlong : ¬ (filled ++ rest).length < filled.length := by simp
  simp only [fillPack, hpart.need_eq, hcount, List.take_left, List.drop_left, if_neg hlong, hkeep, hpack]
  rfl

/-- Continuing a header byte by byte: the chunk ends inside it, or the loop stops at its last byte and the rest is
left. What a header is in either mode is known from how its beginnings and the whole of it are scanned. -/
theorem readHeader_of_scan {handshake : Bool} {header : List UInt8} {size : Nat} {vars : HeadVars}
    (hroom : header.length ≤ headersize)
    (hscan : scanHeader isInvalid handshake header {} = ⟨size, vars, header⟩)
    (hcutscan : ∀ cut, cut <+: header → cut.length < header.length →
      scanHeader isInvalid handshake cut {} = ⟨-1, {}, cut⟩)
    {cut chunk after : List UInt8} (hcut : cut.length < header.length) (hne : chunk ≠ [])
    (hpre : cut ++ chunk <+: header ++ after) :
    (readHeader handshake cut chunk {} = .ok ⟨-1, {}, cut ++ chunk, []⟩ ∧ cut ++ chunk <+: header ∧
        (cut ++ chunk).length < header.length) ∨
      ∃ rest, cut ++ chunk = header ++ rest ∧ rest <+: after ∧
        readHeader handshake cut chunk {} = .ok ⟨size, vars, header, rest⟩ := by
  induction chunk generalizing cut with
  | nil => exact absurd rfl hne
  | cons x chunk ih =>
    have hassoc : cut ++ x :: chunk = cut ++ [x] ++ chunk := List.append_cons _ _ _
    rw [readHeader, if_neg (by omega), hassoc]
    rw [hassoc] at hpre
    have hone : cut ++ [x] <+: header ++ after := (List.prefix_append _ _).trans hpre
    rcases prefix_append_cases hone with ⟨hinside, hlen⟩ | ⟨rest, hrest, -⟩
    · rw [hcutscan _ hinside hlen]
      by_cases hnil : chunk = []
      · subst hnil
        rw [List.append_nil]
        exact .inl ⟨by simp, hinside, hlen⟩
      · have hgo : ¬ ((0 : Int) ≤ -1 ∨ chunk = []) := by simp [hnil]
        rw [if_neg hgo]
        exact ih hlen hnil hpre
    · -- the byte that ends the header is the last one that was missing
      have hexact : cut ++ [x] = header := by
        have hcount := congrArg List.length hrest
        simp only [List.length_append, List.length_singleton] at hcount
        have hnil : rest = [] := List.eq_nil_of_length_eq_zero (by omega)
        rw [hrest, hnil, List.append_nil]
      rw [hexact] at hpre ⊢
      refine .inr ⟨chunk, rfl, (List.prefix_append_right_inj _).mp hpre, ?_⟩
      rw [hscan, if_pos (.inl (Int.natCast_nonneg _))]

theorem readHeader_stream (f : Frame) {cut chunk after : List UInt8} (hcut : cut.length < f.header.length)
    (hne : chunk ≠ []) (hpre : cut ++ chunk <+: f.header ++ after) :
    (readHeader false cut chunk {} = .ok ⟨-1, {}, cut ++ chunk, []⟩ ∧ cut ++ chunk <+: f.header ∧
        (cut ++ chunk).length < f.header.length) ∨
      ∃ rest, cut ++ chunk = f.header ++ rest ∧ rest <+: after ∧ readHeader false cut chunk {} =
        .ok ⟨f.payload.length, headVars {} f.form f.payload.length f.mask, f.header, rest⟩ := by
  have hroom : f.header.length ≤ headersize := f.header_bounds.2.trans (by decide)
  have hscan := f.scanHeader_header isInvalid isInvalid_natCast [] {}
  rw [List.append_nil] at hscan
  exact readHeader_of_scan hroom hscan (fun _ hinside hlen => f.scanHeader_cut _ rfl hinside hlen {}) hcut hne hpre

theorem payloadPart_newPack {f : Frame} {fd : Int} {uc : Uncomplete} (hid : uc.id = fd) (rest : List UInt8) :
    PayloadPart f fd []
      (newPack uc ⟨f.payload.length, headVars {} f.form f.payload.length f.mask, f.header, rest⟩ false) := by
  obtain ⟨hkey, hzero⟩ := key_ofVars_headVars fd f.form f.payload.length f.mask
  exact ⟨hid, rfl, rfl, by cases f.mask <;> rfl, hkey, fun _ => hzero⟩

/-! ### Any chunk -/

/-- **One chunk against one frame.** Either the chunk ends inside the frame, and the table remembers how far, or it
completes the frame and `finishFrame` deals with what follows. -/
theorem filterData_frame {L : Option Queue} {fd : Int} {f : Frame} {cut chunk after : List UInt8}
    (hok : TableOk (getQueue L).hash) (hbegun : Begun L fd f cut) (hne : chunk ≠ [])
    (hpre : cut ++ chunk <+: f.encode ++ after) :
    (∃ L', filterData L fd chunk false = .ok (L', .nothing) ∧ Touches fd L L' [] ∧ Begun L' fd f (cut ++ chunk)) ∨
      ∃ L' rest, cut ++ chunk = f.encode ++ rest ∧ rest <+: after ∧ Touches fd L L' [] ∧ record L' fd = none ∧
        filterData L fd chunk false = finishFrame L' fd f rest := by
  cases hbegun with
  | idle hnone =>
    rw [filterData, (findUncomplete_eq_none_iff L fd).mpr hnone]
    rw [List.nil_append] at hpre ⊢
    rcases prefix_encode_cases hpre with ⟨hhead, hlen⟩ | ⟨part, rfl, hbody, hlen⟩ | ⟨rest, rfl, hrest⟩
    · obtain ⟨htouch, hrecord⟩ := touches_saveUncomplete L (headerRecord fd chunk) hok hnone
      exact .inl ⟨_, freshData_cut f L fd hhead hlen, htouch, .held hne hrecord (.header rfl rfl rfl hhead hlen)⟩
    · have hpart := payloadPart_savePayload f fd part
      obtain ⟨htouch, hrecord⟩ := touches_saveUncomplete_of_id hok hpart.id_eq hnone
      exact .inl ⟨_, freshData_part f L fd hlen, htouch, .held hne hrecord (.payload hpart hbody hlen)⟩
    · exact .inr ⟨L, rest, rfl, hrest, ⟨hok, fun _ _ => rfl, by simp⟩, hnone, freshData_frame f L fd rest⟩
  | @held _ uc hcut hrecord hholds =>
    obtain ⟨q, hfind⟩ := findUncomplete_of_record hok hrecord
    obtain ⟨hfound, hnone⟩ := touches_findUncomplete hok hfind
    have hne' : cut ++ chunk ≠ [] := by simp [hcut]
    -- putting a record of `fd` back where one was taken out
    have hback : ∀ uc', Holds f fd (cut ++ chunk) uc' →
        Touches fd L (some (link q uc')) [] ∧ Begun (some (link q uc')) fd f (cut ++ chunk) := by
      intro uc' hholds'
      obtain ⟨htouch, hrecord'⟩ := touches_saveUncomplete_of_id hfound.table hholds'.id_eq hnone
      exact ⟨hfound.trans htouch, .held hne' hrecord' hholds'⟩
    rw [filterData, hfind]
    dsimp only
    cases hholds with
    | header hid hread hheader hhead hlen =>
      have hpre' := hpre
      rw [Frame.encode, List.append_assoc] at hpre'
      rcases readHeader_stream f hlen hne hpre' with ⟨hstep, hhead', hlen'⟩ | ⟨rest, heq, -, hstep⟩
      · rw [resumeData_of_readHeader q (by omega) (by rw [hheader]; exact hstep), if_pos rfl]
        exact .inl ⟨_, rfl, hback { uc with header := cut ++ chunk } (.header hid hread rfl hhead' hlen')⟩
      · rw [resumeData_of_readHeader q (by omega) (by rw [hheader]; exact hstep),
          if_neg (by dsimp only; omega), if_neg (by dsimp only; omega), if_neg (by dsimp only; omega)]
        dsimp only
        have hpart := payloadPart_newPack (f := f) hid rest
        rcases prefix_encode_cases hpre with ⟨-, hshort⟩ | ⟨part, heq', hbody, hlen'⟩ | ⟨rest', heq', hrest⟩
        · rw [heq, List.length_append] at hshort
          omega
        · obtain rfl : rest = part := List.append_cancel_left (heq.symm.trans heq')
          obtain ⟨uc', hfill, hpart'⟩ := fillPack_part q hpart hlen'
          obtain ⟨htouch, hbegun⟩ := hback uc' (heq ▸ .payload hpart' hbody hlen')
          exact .inl ⟨_, hfill, htouch, hbegun⟩
        · have hbytes : rest = f.body ++ rest' := by
            rw [heq, Frame.encode, List.append_assoc] at heq'
            exact List.append_cancel_left heq'
          exact .inr ⟨some q, rest', heq', hrest, hfound, hnone, fillPack_frame q hpart List.nil_prefix hbytes⟩
    | @payload part _ hpart hbody hlen =>
      rw [resumeData, if_neg (by rw [hpart.read_eq]; omega)]
      rcases prefix_encode_cases hpre with ⟨-, hshort⟩ | ⟨part', heq, hbody', hlen'⟩ | ⟨rest, heq, hrest⟩
      · simp only [List.length_append] at hshort
        omega
      · obtain rfl : part ++ chunk = part' := List.append_cancel_left ((List.append_assoc _ _ _).symm.trans heq)
        obtain ⟨uc', hfill, hpart'⟩ := fillPack_part q hpart hlen'
        obtain ⟨htouch, hbegun⟩ := hback uc' (heq ▸ .payload hpart' hbody' hlen')
        exact .inl ⟨_, hfill, htouch, hbegun⟩
      · have hbytes : part ++ chunk = f.body ++ rest := by
          rw [Frame.encode, List.append_assoc, List.append_assoc] at heq
          exact List.append_cancel_left heq
        exact .inr ⟨some q, rest, heq, hrest, hfound, hnone, fillPack_frame q hpart hbody hbytes⟩

end SkynetServer.Websocket
