import SkynetServer.Websocket.Stream
import SkynetServer.Websocket.Strnpos

/-!
# Handshake requests

Until the handshake is done `filter_data_` cuts the stream of a socket behind every empty line. The first look at a
chunk searches all of it, a request that has begun is searched again after every byte, and `push_more` searches what
lies behind a request. All three stop at the same byte because an empty line that ends in a beginning of the stream
is still there when more has arrived, and because a request that fits into the header array never overruns it.
-/

namespace SkynetServer.Websocket

/-- `"\r\n\r\n"`. -/
def emptyLine : List UInt8 := [13, 10, 13, 10]

/-- A header block: it fits into the header array and ends at its first empty line. -/
structure HeaderBlock where
  bytes : List UInt8
  length_le : bytes.length ≤ headersize
  ends : ∃ text, bytes = text ++ emptyLine ∧ ∀ i < text.length, ¬ OccursAt bytes emptyLine i

/-! ### Searching a beginning of the stream -/

theorem occursAt_append_iff {first needle : List UInt8} (second : List UInt8) {i : Nat}
    (hlen : i + needle.length ≤ first.length) :
    OccursAt (first ++ second) needle i ↔ OccursAt first needle i := by
  rw [OccursAt, OccursAt, List.drop_append_of_le_length (by omega)]
  refine ⟨fun h => ?_, fun h => h.trans (List.prefix_append _ _)⟩
  exact List.prefix_of_prefix_length_le h (List.prefix_append _ _) (by rw [List.length_drop]; omega)

theorem getHttpHeader_of_findsFirst {buffer : List UInt8} {r : Int} (h : FindsFirst buffer emptyLine r) :
    getHttpHeader buffer = if r < 0 then r else r + 4 := by
  have hfound : websocketStrnpos buffer emptyLine = r :=
    (findsFirst_websocketStrnpos buffer (by decide)).unique h
  rw [getHttpHeader, show [13, 10, 13, 10] = emptyLine from rfl, hfound]

namespace HeaderBlock

theorem four_le_length (b : HeaderBlock) : 4 ≤ b.bytes.length := by
  obtain ⟨text, heq, -⟩ := b.ends
  rw [heq, List.length_append, show emptyLine.length = 4 from rfl]
  omega

theorem getHttpHeader_append (b : HeaderBlock) (rest : List UInt8) :
    getHttpHeader (b.bytes ++ rest) = b.bytes.length := by
  obtain ⟨text, heq, hfirst⟩ := b.ends
  have hlen : b.bytes.length = text.length + 4 := by
    rw [heq, List.length_append]
    rfl
  have hfound : FindsFirst (b.bytes ++ rest) emptyLine text.length := by
    refine .inl ⟨text.length, rfl, ?_, fun j hj hoccurs => ?_⟩
    · rw [OccursAt, heq, List.append_assoc, List.drop_left]
      exact List.prefix_append _ _
    · have hroom : j + emptyLine.length ≤ b.bytes.length := by
        rw [hlen, show emptyLine.length = 4 from rfl]
        omega
      exact hfirst j hj ((occursAt_append_iff rest hroom).mp hoccurs)
  rw [getHttpHeader_of_findsFirst hfound, if_neg (by omega), hlen]
  rfl

theorem getHttpHeader_cut (b : HeaderBlock) {cut : List UInt8} (hpre : cut <+: b.bytes)
    (hcut : cut.length < b.bytes.length) : getHttpHeader cut = -1 := by
  obtain ⟨text, heq, hfirst⟩ := b.ends
  obtain ⟨missing, hmissing⟩ := hpre
  have hlen : b.bytes.length = text.length + 4 := by
    rw [heq, List.length_append]
    rfl
  have hnone : FindsFirst cut emptyLine (-1) := by
    refine .inr ⟨rfl, fun i hoccurs => ?_⟩
    have hroom := hoccurs.le_length (by decide)
    rw [show emptyLine.length = 4 from rfl] at hroom
    refine hfirst i (by omega) ?_
    rw [← hmissing]
    exact (occursAt_append_iff missing hroom).mpr hoccurs
  rw [getHttpHeader_of_findsFirst hnone]
  rfl

theorem scanHeader_append (b : HeaderBlock) (refused : Int → Bool) (rest : List UInt8) (v : HeadVars) :
    scanHeader refused true (b.bytes ++ rest) v = ⟨b.bytes.length, v, b.bytes ++ rest⟩ := by
  rw [scanHeader, if_pos rfl, b.getHttpHeader_append]

theorem scanHeader_cut (b : HeaderBlock) (refused : Int → Bool) {cut : List UInt8} (hpre : cut <+: b.bytes)
    (hcut : cut.length < b.bytes.length) (v : HeadVars) : scanHeader refused true cut v = ⟨-1, v, cut⟩ := by
  rw [scanHeader, if_pos rfl, b.getHttpHeader_cut hpre hcut]

theorem saveHeader_cut (b : HeaderBlock) (fd : Int) {cut : List UInt8} (hcut : cut.length < b.bytes.length) :
    saveHeader fd cut true = .ok (headerRecord fd cut) := by
  have hroom : ¬ headersize < cut.length := by
    have := b.length_le
    omega
  simp [saveHeader, hroom, headerRecord]

def pack (fd : Int) (b : HeaderBlock) : Netpack := ⟨fd, b.bytes.length, b.bytes⟩

/-- What a call does with the bytes `rest` behind a completed block. -/
def finish (L : Option Queue) (fd : Int) (b : HeaderBlock) (rest : List UInt8) :
    Except Fault (Option Queue × FilterResult) :=
  if rest = [] then .ok (L, .data fd b.bytes b.bytes.length)
  else (pushMore (pushData L fd b.bytes b.bytes.length) fd rest true).map fun q => (some q, .more)

/-! ### One block in one buffer -/

theorem decode_plain (fd : Int) (bytes : List UInt8) : (decodeWsmaskData bytes (.ofVars fd {})).1 = bytes := rfl

theorem pushMore_cut (b : HeaderBlock) (q : Queue) (fd : Int) {cut : List UInt8} (hpre : cut <+: b.bytes)
    (hcut : cut.length < b.bytes.length) :
    pushMore q fd cut true = .ok (saveUncomplete (some q) (headerRecord fd cut)) := by
  rw [pushMore]
  simp only [b.scanHeader_cut _ hpre hcut, if_true, b.saveHeader_cut fd hcut]
  rfl

theorem pushMore_block (b : HeaderBlock) (q : Queue) (fd : Int) (rest : List UInt8) :
    pushMore q fd (b.bytes ++ rest) true =
      if rest = [] then .ok (pushData (some q) fd b.bytes b.bytes.length)
      else pushMore (pushData (some q) fd b.bytes b.bytes.length) fd rest true := by
  rw [pushMore]
  simp only [b.scanHeader_append, Int.toNat_natCast, List.drop_zero, List.take_left, List.drop_left, decode_plain]
  rw [if_neg (by omega), if_neg (by simp)]
  rfl

theorem freshData_cut (b : HeaderBlock) (L : Option Queue) (fd : Int) {cut : List UInt8} (hpre : cut <+: b.bytes)
    (hcut : cut.length < b.bytes.length) :
    freshData L fd cut true = .ok (some (saveUncomplete L (headerRecord fd cut)), .nothing) := by
  simp only [freshData, b.scanHeader_cut _ hpre hcut, if_true, b.saveHeader_cut fd hcut]
  rfl

theorem freshData_block (b : HeaderBlock) (L : Option Queue) (fd : Int) (rest : List UInt8) :
    freshData L fd (b.bytes ++ rest) true = b.finish L fd rest := by
  have hlen : (b.bytes ++ rest).length = b.bytes.length ↔ rest = [] := by simp
  simp only [freshData, b.scanHeader_append, Int.toNat_natCast, List.drop_zero, List.take_left, List.drop_left,
    decode_plain, hlen]
  rw [if_neg (by omega), if_neg (by omega), if_neg (by omega), if_neg (by simp)]
  rfl

/-! ### A block that has begun -/

theorem readHeader_stream (b : HeaderBlock) {cut chunk after : List UInt8} (hcut : cut.length < b.bytes.length)
    (hne : chunk ≠ []) (hpre : cut ++ chunk <+: b.bytes ++ after) :
    (readHeader true cut chunk {} = .ok ⟨-1, {}, cut ++ chunk, []⟩ ∧ cut ++ chunk <+: b.bytes ∧
        (cut ++ chunk).length < b.bytes.length) ∨
      ∃ rest, cut ++ chunk = b.bytes ++ rest ∧ rest <+: after ∧
        readHeader true cut chunk {} = .ok ⟨b.bytes.length, {}, b.bytes, rest⟩ := by
  have hscan := b.scanHeader_append isInvalid [] {}
  rw [List.append_nil] at hscan
  exact readHeader_of_scan b.length_le hscan (fun _ hinside hlen => b.scanHeader_cut _ hinside hlen {}) hcut hne hpre

theorem fillPack_block (b : HeaderBlock) (q : Queue) (fd : Int) (uc : Uncomplete) (rest : List UInt8) :
    fillPack q fd (newPack uc ⟨b.bytes.length, {}, b.bytes, rest⟩ true) rest true = b.finish (some q) fd rest := by
  simp [fillPack, newPack, decodeWsmaskData, finish]
  rfl

end HeaderBlock

/-- Of the blocks `todo`, `cut` has arrived. -/
inductive Kept (L : Option Queue) (fd : Int) : List HeaderBlock → List UInt8 → Prop where
  | idle {todo : List HeaderBlock} (hnone : record L fd = none) : Kept L fd todo []
  | begun {b : HeaderBlock} {blocks : List HeaderBlock} {cut : List UInt8} {uc : Uncomplete}
      (hrecord : record L fd = some uc) (hid : uc.id = fd) (hread : uc.read = -1) (hheader : uc.header = cut)
      (hlen : cut.length < b.bytes.length) : Kept L fd (b :: blocks) cut

theorem Kept.congr {L L' : Option Queue} {fd : Int} {todo : List HeaderBlock} {cut : List UInt8}
    (heq : record L' fd = record L fd) (h : Kept L fd todo cut) : Kept L' fd todo cut := by
  cases h with
  | idle hnone => exact .idle (heq.trans hnone)
  | begun hrecord hid hread hheader hlen => exact .begun (heq.trans hrecord) hid hread hheader hlen

theorem kept_saveUncomplete {L : Option Queue} {fd : Int} {b : HeaderBlock} (blocks : List HeaderBlock)
    {uc : Uncomplete} (hok : TableOk (getQueue L).hash) (hnone : record L fd = none) (hid : uc.id = fd)
    (hread : uc.read = -1) (hlen : uc.header.length < b.bytes.length) :
    Touches fd L (some (saveUncomplete L uc)) [] ∧
      Kept (some (saveUncomplete L uc)) fd (b :: blocks) uc.header := by
  obtain ⟨htouch, hrecord⟩ := touches_saveUncomplete_of_id hok hid hnone
  exact ⟨htouch, .begun hrecord hid hread rfl hlen⟩

/-! ### One call -/

def blockBytes (blocks : List HeaderBlock) : List UInt8 := blocks.flatMap HeaderBlock.bytes

theorem blockBytes_cons (b : HeaderBlock) (blocks : List HeaderBlock) :
    blockBytes (b :: blocks) = b.bytes ++ blockBytes blocks := List.flatMap_cons

theorem blockBytes_append (blocks blocks' : List HeaderBlock) :
    blockBytes (blocks ++ blocks') = blockBytes blocks ++ blockBytes blocks' := List.flatMap_append

/-- `push_more` takes the complete blocks off a beginning of the stream and keeps the one it ends in. -/
theorem pushMore_blocks (blocks : List HeaderBlock) (fd : Int) (q : Queue) (buffer : List UInt8)
    (hok : TableOk q.hash) (hnone : record (some q) fd = none) (hne : buffer ≠ [])
    (hpre : buffer <+: blockBytes blocks) :
    ∃ q' done todo cut, pushMore q fd buffer true = .ok q' ∧ blocks = done ++ todo ∧
      buffer = blockBytes done ++ cut ∧ Touches fd (some q) (some q') (done.map (HeaderBlock.pack fd)) ∧
      Kept (some q') fd todo cut := by
  induction blocks generalizing q buffer with
  | nil => exact absurd (List.prefix_nil.mp hpre) hne
  | cons b blocks ih =>
    rw [blockBytes_cons] at hpre
    rcases prefix_append_cases hpre with ⟨hinside, hlen⟩ | ⟨rest, rfl, hrest⟩
    · obtain ⟨htouch, hkept⟩ := @kept_saveUncomplete (some q) fd b blocks (headerRecord fd buffer) hok hnone rfl
        rfl hlen
      exact ⟨_, [], b :: blocks, buffer, b.pushMore_cut q fd hinside hlen, rfl, rfl, htouch, hkept⟩
    · have htouch := touches_pushData (L := some q) hok fd b.bytes b.bytes.length
      have hnone' := (record_pushData (some q) fd b.bytes b.bytes.length fd).trans hnone
      rw [b.pushMore_block]
      by_cases hnil : rest = []
      · subst hnil
        exact ⟨_, [b], blocks, [], if_pos rfl, rfl, by simp [blockBytes], htouch, .idle hnone'⟩
      · obtain ⟨q', done, todo, cut, hmore, rfl, rfl, htouch', hkept⟩ := ih _ rest htouch.table hnone' hnil hrest
        refine ⟨q', b :: done, todo, cut, (if_neg hnil).trans hmore, rfl, ?_, htouch.trans htouch', hkept⟩
        rw [blockBytes_cons, List.append_assoc]

/-- The outcome of one call: the blocks `done` are delivered, `todo` remain, and of these `cut` has arrived. -/
structure BlockOutcome (fd : Int) (L : Option Queue) (result : Option Queue × FilterResult)
    (done todo : List HeaderBlock) (cut : List UInt8) : Prop where
  reports : (collect result.1 result.2).2 = done.map fun b => .payload fd b.bytes
  touches : Touches fd L (collect result.1 result.2).1 []
  kept : Kept (collect result.1 result.2).1 fd todo cut

theorem finish_blocks {L L' : Option Queue} {fd : Int} (b : HeaderBlock) (blocks : List HeaderBlock)
    {rest : List UInt8} (hempty : packets L = []) (htouch : Touches fd L L' []) (hnone : record L' fd = none)
    (hpre : rest <+: blockBytes blocks) :
    ∃ result done todo cut, b.finish L' fd rest = .ok result ∧ b :: blocks = done ++ todo ∧
      b.bytes ++ rest = blockBytes done ++ cut ∧ BlockOutcome fd L result done todo cut := by
  unfold HeaderBlock.finish
  by_cases hnil : rest = []
  · subst hnil
    exact ⟨_, [b], blocks, [], if_pos rfl, rfl, by simp [blockBytes], by simp [collect], htouch, .idle hnone⟩
  · have hpush := touches_pushData htouch.table fd b.bytes b.bytes.length
    have hnone' := (record_pushData L' fd b.bytes b.bytes.length fd).trans hnone
    obtain ⟨q, done, todo, cut, hmore, rfl, rfl, hrest, hkept⟩ :=
      pushMore_blocks blocks fd (pushData L' fd b.bytes b.bytes.length) rest hpush.table hnone' hnil hpre
    have hall : Touches fd L (some q) ((b :: done).map (HeaderBlock.pack fd)) := htouch.trans (hpush.trans hrest)
    obtain ⟨hreports, htouch', hrecord⟩ := collect_more hempty hall
    refine ⟨(some q, .more), b :: done, todo, cut, by rw [if_neg hnil, hmore]; rfl, rfl, ?_, ?_, htouch',
      hkept.congr (hrecord fd)⟩
    · rw [blockBytes_cons, List.append_assoc]
    · rw [hreports, List.map_map]
      apply List.map_congr_left
      intro b' _
      simp [HeaderBlock.pack]

/-- **One chunk.** Whatever part of its next block an fd has sent, the next chunk delivers the blocks it completes. -/
theorem filterData_blocks {L : Option Queue} {fd : Int} {blocks : List HeaderBlock} {cut chunk : List UInt8}
    (hok : TableOk (getQueue L).hash) (hempty : packets L = []) (hkept : Kept L fd blocks cut) (hne : chunk ≠ [])
    (hpre : cut ++ chunk <+: blockBytes blocks) :
    ∃ result done todo cut', filterData L fd chunk true = .ok result ∧ blocks = done ++ todo ∧
      cut ++ chunk = blockBytes done ++ cut' ∧ BlockOutcome fd L result done todo cut' := by
  cases hkept with
  | idle hnone =>
    cases blocks with
    | nil => exact absurd (List.prefix_nil.mp hpre) hne
    | cons b blocks =>
      rw [blockBytes_cons, List.nil_append] at hpre
      rw [filterData, (findUncomplete_eq_none_iff L fd).mpr hnone, List.nil_append]
      rcases prefix_append_cases hpre with ⟨hinside, hlen⟩ | ⟨rest, rfl, hrest⟩
      · obtain ⟨htouch, hkept⟩ := @kept_saveUncomplete L fd b blocks (headerRecord fd chunk) hok hnone rfl rfl hlen
        exact ⟨_, [], b :: blocks, chunk, b.freshData_cut L fd hinside hlen, rfl, rfl, rfl, htouch, hkept⟩
      · dsimp only
        rw [b.freshData_block]
        exact finish_blocks b blocks hempty ⟨hok, fun _ _ => rfl, by simp⟩ hnone hrest
  | @begun b blocks _ uc hrecord hid hread hheader hlen =>
    obtain ⟨q, hfind⟩ := findUncomplete_of_record hok hrecord
    obtain ⟨hfound, hnone⟩ := touches_findUncomplete hok hfind
    rw [blockBytes_cons] at hpre
    rw [filterData, hfind]
    dsimp only
    rcases b.readHeader_stream hlen hne hpre with ⟨hstep, hinside, hlen'⟩ | ⟨rest, heq, hrest, hstep⟩
    · rw [resumeData_of_readHeader q (by omega) (by rw [hheader]; exact hstep), if_pos rfl]
      obtain ⟨htouch, hkept⟩ := @kept_saveUncomplete (some q) fd b blocks { uc with header := cut ++ chunk }
        hfound.table hnone hid hread hlen'
      exact ⟨_, [], b :: blocks, cut ++ chunk, rfl, rfl, rfl, rfl, hfound.trans htouch, hkept⟩
    · rw [resumeData_of_readHeader q (by omega) (by rw [hheader]; exact hstep),
        if_neg (by dsimp only; omega), if_neg (by dsimp only; omega), if_neg (by dsimp only; omega)]
      dsimp only
      rw [b.fillPack_block, heq]
      exact finish_blocks b blocks hempty hfound hnone hrest

/-! ### Whole runs -/

/-- **A run.** Any chunks that make up a beginning of what is left of the stream. -/
theorem feedAll_blocks (chunks : List (List UInt8)) {L : Option Queue} {fd : Int} {blocks : List HeaderBlock}
    {cut : List UInt8} (hok : TableOk (getQueue L).hash) (hempty : packets L = []) (hkept : Kept L fd blocks cut)
    (hne : [] ∉ chunks) (hpre : cut ++ chunks.flatten <+: blockBytes blocks) :
    ∃ L' done todo cut', feedAll true L (chunks.map fun chunk => (fd, chunk)) =
        .ok (L', done.map fun b => .payload fd b.bytes) ∧ blocks = done ++ todo ∧
      cut ++ chunks.flatten = blockBytes done ++ cut' ∧ Kept L' fd todo cut' := by
  induction chunks generalizing L blocks cut with
  | nil => exact ⟨L, [], blocks, cut, rfl, rfl, by simp [blockBytes], hkept⟩
  | cons chunk chunks ih =>
    rw [List.mem_cons, not_or] at hne
    rw [List.flatten_cons, ← List.append_assoc] at hpre
    obtain ⟨result, done, todo, cut', hstep, rfl, hcut, hout⟩ := filterData_blocks hok hempty hkept
      (Ne.symm hne.1) ((List.prefix_append _ _).trans hpre)
    rw [hcut, blockBytes_append, List.append_assoc, List.prefix_append_right_inj] at hpre
    have hempty' : packets (collect result.1 result.2).1 = [] := by
      rw [hout.touches.packets_eq, hempty, List.append_nil]
    obtain ⟨L', done', todo', cut'', hrest, rfl, hcut', hkept'⟩ :=
      ih hout.touches.table hempty' hout.kept hne.2 hpre
    refine ⟨L', done ++ done', todo', cut'', ?_, (List.append_assoc _ _ _).symm, ?_, hkept'⟩
    · rw [List.map_append, ← hout.reports]
      exact feedAll_cons hstep hrest
    · rw [List.flatten_cons, ← List.append_assoc, hcut, List.append_assoc, hcut', blockBytes_append,
        List.append_assoc]

theorem Kept.eq_nil_of_all {L : Option Queue} {fd : Int} {todo : List HeaderBlock} {cut : List UInt8}
    (h : Kept L fd todo cut) (hall : cut = blockBytes todo) : todo = [] := by
  cases h with
  | idle =>
    cases todo with
    | nil => rfl
    | cons b blocks =>
      have hfour := b.four_le_length
      have hlen := congrArg List.length hall
      rw [blockBytes_cons, List.length_append, List.length_nil] at hlen
      omega
  | begun _ _ _ _ hlen =>
    rw [hall, blockBytes_cons, List.length_append] at hlen
    omega

/-- **Handshake framing.** However a stream of header blocks is cut into chunks, the blocks are delivered one by one. -/
theorem feedAll_delivers_blocks (fd : Int) (blocks : List HeaderBlock) (chunks : List (List UInt8))
    (hne : [] ∉ chunks) (hsplit : chunks.flatten = blockBytes blocks) :
    ∃ L, feedAll true none (chunks.map fun chunk => (fd, chunk)) =
      .ok (L, blocks.map fun b => .payload fd b.bytes) := by
  have hkept : Kept none fd blocks [] := .idle (by simp [record, getQueue, Queue.new])
  obtain ⟨L, done, todo, cut, hrun, rfl, hcut, hkept'⟩ := feedAll_blocks chunks tableOk_new packets_none hkept hne
    (by rw [List.nil_append, hsplit])
  rw [List.nil_append, hsplit, blockBytes_append, List.append_cancel_left_eq] at hcut
  refine ⟨L, ?_⟩
  rw [hrun, hkept'.eq_nil_of_all hcut.symm, List.append_nil]

/-- `"GET\r\n\r\n"`. -/
def getBlock : HeaderBlock where
  bytes := [71, 69, 84, 13, 10, 13, 10]
  length_le := by decide
  ends := ⟨[71, 69, 84], rfl, by decide⟩

/-- Two of them, the first one cut inside its empty line. -/
theorem feedAll_delivers_blocks_get :
    ∃ L, feedAll true none
        ([[71, 69, 84, 13, 10], [13], [10, 71, 69, 84, 13, 10, 13, 10]].map fun chunk => (7, chunk)) =
      .ok (L, [getBlock, getBlock].map fun b => .payload 7 b.bytes) :=
  feedAll_delivers_blocks 7 [getBlock, getBlock] [[71, 69, 84, 13, 10], [13], [10, 71, 69, 84, 13, 10, 13, 10]]
    (by decide) (by decide)

end SkynetServer.Websocket
