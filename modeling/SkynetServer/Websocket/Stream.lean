import SkynetServer.Websocket.Chunk

/-!
# Chunk independence

The gate feeds the chunks of all its sockets to `filter_data_` and drains the queue after every `more`. Whatever
the cut points and however the chunks of different fds are interleaved, each fd gets exactly the payloads of its
own frames. What carries the induction is `Waiting`: which bytes of its next frame an fd has already sent, and that
its record in the table says exactly that. A stream may end in one byte of something that is not a data frame, which
is what the treatment of close frames needs.
-/

namespace SkynetServer.Websocket

/-- What the gate learns from one call, payloads with the fd they came from. -/
inductive Report where
  | payload (fd : Int) (bytes : List UInt8)
  | close (fd : Int)
deriving DecidableEq

/-- The reports of one result; `more` is followed by `lpop` until the queue is empty. -/
def collect (L : Option Queue) : FilterResult → Option Queue × List Report
  | .data fd buffer size => (L, [.payload fd (buffer.take size)])
  | .more => ((drain L).2, (drain L).1.map fun np => .payload np.id (np.buffer.take np.size))
  | .close fd => (L, [.close fd])
  | _ => (L, [])

/-- One chunk. -/
def feed (handshake : Bool) (L : Option Queue) (fd : Int) (chunk : List UInt8) :
    Except Fault (Option Queue × List Report) := do
  let (L, result) ← filterData L fd chunk handshake
  return collect L result

/-- The chunks of all fds in the order they arrive. -/
def feedAll (handshake : Bool) (L : Option Queue) :
    List (Int × List UInt8) → Except Fault (Option Queue × List Report)
  | [] => return (L, [])
  | (fd, chunk) :: rest => do
    let (L, reports) ← feed handshake L fd chunk
    let (L, more) ← feedAll handshake L rest
    return (L, reports ++ more)

theorem feedAll_cons {handshake : Bool} {L : Option Queue} {fd : Int} {chunk : List UInt8}
    {rest : List (Int × List UInt8)} {result : Option Queue × FilterResult} {L' : Option Queue} {reports : List Report}
    (hstep : filterData L fd chunk handshake = .ok result)
    (hrest : feedAll handshake (collect result.1 result.2).1 rest = .ok (L', reports)) :
    feedAll handshake L ((fd, chunk) :: rest) = .ok (L', (collect result.1 result.2).2 ++ reports) := by
  simp only [feedAll, feed, hstep]
  change (do let (L, more) ← feedAll handshake (collect result.1 result.2).1 rest; _) = _
  rw [hrest]
  rfl

/-- The part of the arriving chunks that belongs to one fd. -/
def chunksOf (fd : Int) (arrivals : List (Int × List UInt8)) : List (List UInt8) :=
  (arrivals.filter fun a => a.1 = fd).map (·.2)

/-- The payloads reported for one fd; a reported close shows as `none`. -/
def Report.of (fd : Int) : Report → Option (Option (List UInt8))
  | .payload fd' bytes => if fd' = fd then some (some bytes) else none
  | .close fd' => if fd' = fd then some none else none

def reportsOf (fd : Int) (reports : List Report) : List (Option (List UInt8)) := reports.filterMap (Report.of fd)

/-! ### What an fd still owes -/

/-- Of the frames `todo`, `cut` has arrived; a single byte behind the last frame is kept as the beginning of a
header. -/
inductive Waiting (L : Option Queue) (fd : Int) : List Frame → List UInt8 → Prop where
  | idle {todo : List Frame} (hnone : record L fd = none) : Waiting L fd todo []
  | begun {f : Frame} {fs : List Frame} {cut : List UInt8} {uc : Uncomplete} (hne : cut ≠ [])
      (hrecord : record L fd = some uc) (hholds : Holds f fd cut uc) : Waiting L fd (f :: fs) cut
  | tail {b : UInt8} {uc : Uncomplete} (hrecord : record L fd = some uc) (hid : uc.id = fd) (hread : uc.read = -1)
      (hheader : uc.header = [b]) : Waiting L fd [] [b]

theorem Begun.waiting {L : Option Queue} {fd : Int} {f : Frame} {cut : List UInt8} (h : Begun L fd f cut)
    (fs : List Frame) : Waiting L fd (f :: fs) cut := by
  cases h with
  | idle hnone => exact .idle hnone
  | held hne hrecord hholds => exact .begun hne hrecord hholds

theorem Waiting.begun_head {L : Option Queue} {fd : Int} {f : Frame} {fs : List Frame} {cut : List UInt8}
    (h : Waiting L fd (f :: fs) cut) : Begun L fd f cut := by
  cases h with
  | idle hnone => exact .idle hnone
  | begun hne hrecord hholds => exact .held hne hrecord hholds

theorem Waiting.congr {L L' : Option Queue} {fd : Int} (heq : record L' fd = record L fd) {todo : List Frame}
    {cut : List UInt8} (h : Waiting L fd todo cut) : Waiting L' fd todo cut := by
  cases h with
  | idle hnone => exact .idle (heq.trans hnone)
  | begun hne hrecord hholds => exact .begun hne (heq.trans hrecord) hholds
  | tail hrecord hid hread hheader => exact .tail (heq.trans hrecord) hid hread hheader

theorem encodeAll_cons (f : Frame) (fs : List Frame) : Frame.encodeAll (f :: fs) = f.encode ++ Frame.encodeAll fs := by
  simp [Frame.encodeAll]

theorem encodeAll_append (fs gs : List Frame) :
    Frame.encodeAll (fs ++ gs) = Frame.encodeAll fs ++ Frame.encodeAll gs := List.flatMap_append

theorem Waiting.eq_nil_of_all {L : Option Queue} {fd : Int} {todo : List Frame} {cut : List UInt8}
    (hwait : Waiting L fd todo cut) (hall : cut = Frame.encodeAll todo) : todo = [] := by
  cases hwait with
  | idle =>
    cases todo with
    | nil => rfl
    | cons f fs =>
      rw [encodeAll_cons] at hall
      exact absurd (List.append_eq_nil_iff.mp hall.symm).1 f.encode_ne_nil
  | begun _ _ hholds =>
    have hlen := hholds.length_lt
    rw [hall, encodeAll_cons, List.length_append] at hlen
    omega
  | tail => rfl

/-! ### A single byte behind the frames -/

theorem scanHeader_single (refused : Int → Bool) (b : UInt8) (v : HeadVars) :
    scanHeader refused false [b] v = ⟨-1, v, [b]⟩ := by
  simp [scanHeader, skipFrames, clampSize_of_nonpos]

theorem saveHeader_single (fd : Int) (b : UInt8) : saveHeader fd [b] false = .ok (headerRecord fd [b]) := by
  simp [saveHeader, headersize, headerRecord]

theorem pushMore_single (q : Queue) (fd : Int) (b : UInt8) :
    pushMore q fd [b] false = .ok (saveUncomplete (some q) (headerRecord fd [b])) := by
  rw [pushMore]
  simp only [scanHeader_single, if_true, saveHeader_single]
  rfl

theorem freshData_single (L : Option Queue) (fd : Int) (b : UInt8) :
    freshData L fd [b] false = .ok (some (saveUncomplete L (headerRecord fd [b])), .nothing) := by
  simp only [freshData, scanHeader_single, if_true, saveHeader_single]
  rfl

/-- A non-empty beginning of a stream without frames is its only byte. -/
theorem eq_single_of_prefix {tail buffer : List UInt8} (htail : tail.length ≤ 1) (hne : buffer ≠ [])
    (hpre : buffer <+: tail) : ∃ b, buffer = [b] := by
  have hlen := hpre.length_le
  have hpos := List.length_pos_of_ne_nil hne
  exact List.length_eq_one_iff.mp (by omega)

theorem waiting_headerRecord {L : Option Queue} {fd : Int} (hok : TableOk (getQueue L).hash)
    (hnone : record L fd = none) (b : UInt8) :
    Touches fd L (some (saveUncomplete L (headerRecord fd [b]))) [] ∧
      Waiting (some (saveUncomplete L (headerRecord fd [b]))) fd [] [b] := by
  obtain ⟨htouch, hrecord⟩ := touches_saveUncomplete L (headerRecord fd [b]) hok hnone
  exact ⟨htouch, .tail hrecord rfl rfl rfl⟩

/-! ### One call -/

/-- `push_more` takes the complete frames off a beginning of a stream and remembers the one it ends in. -/
theorem pushMore_stream (fs : List Frame) {tail : List UInt8} (htail : tail.length ≤ 1) (fd : Int) (q : Queue)
    (buffer : List UInt8) (hok : TableOk q.hash) (hnone : record (some q) fd = none) (hne : buffer ≠ [])
    (hpre : buffer <+: Frame.encodeAll fs ++ tail) :
    ∃ q' done todo cut, pushMore q fd buffer false = .ok q' ∧ fs = done ++ todo ∧
      buffer = Frame.encodeAll done ++ cut ∧ Touches fd (some q) (some q') (done.map (Frame.pack fd)) ∧
      Waiting (some q') fd todo cut := by
  induction fs generalizing q buffer with
  | nil =>
    obtain ⟨b, rfl⟩ := eq_single_of_prefix htail hne hpre
    obtain ⟨htouch, hwait⟩ := waiting_headerRecord (L := some q) hok hnone b
    exact ⟨_, [], [], [b], pushMore_single q fd b, rfl, rfl, htouch, hwait⟩
  | cons f fs ih =>
    rw [encodeAll_cons, List.append_assoc] at hpre
    rcases prefix_encode_cases hpre with ⟨hhead, hlen⟩ | ⟨part, rfl, hbody, hlen⟩ | ⟨rest, rfl, hrest⟩
    · obtain ⟨htouch, hrecord⟩ := touches_saveUncomplete (some q) (headerRecord fd buffer) hok hnone
      exact ⟨_, [], f :: fs, buffer, pushMore_cut f q fd hhead hlen, rfl, rfl, htouch,
        .begun hne hrecord (.header rfl rfl rfl hhead hlen)⟩
    · have hholds := Holds.payload (payloadPart_savePayload f fd part) hbody hlen
      obtain ⟨htouch, hrecord⟩ := touches_saveUncomplete_of_id (L := some q) hok hholds.id_eq hnone
      exact ⟨_, [], f :: fs, _, pushMore_part f q fd hlen, rfl, rfl, htouch, .begun hne hrecord hholds⟩
    · have htouch := touches_pushData (L := some q) hok fd f.payload f.payload.length
      have hnone' := (record_pushData (some q) fd f.payload f.payload.length fd).trans hnone
      rw [pushMore_frame]
      by_cases hnil : rest = []
      · subst hnil
        exact ⟨_, [f], fs, [], if_pos rfl, rfl, by simp [Frame.encodeAll], htouch, .idle hnone'⟩
      · obtain ⟨q', done, todo, cut, hmore, rfl, rfl, htouch', hwait⟩ := ih _ rest htouch.table hnone' hnil hrest
        refine ⟨q', f :: done, todo, cut, (if_neg hnil).trans hmore, rfl, ?_, htouch.trans htouch', hwait⟩
        rw [encodeAll_cons, List.append_assoc]

/-- The outcome of one call on a chunk of `fd`: the frames `done` are delivered, `todo` remain, and of these `cut`
has arrived. -/
structure Outcome (fd : Int) (L : Option Queue) (result : Option Queue × FilterResult) (done todo : List Frame)
    (cut : List UInt8) : Prop where
  reports : (collect result.1 result.2).2 = done.map fun f => .payload fd f.payload
  touches : Touches fd L (collect result.1 result.2).1 []
  waiting : Waiting (collect result.1 result.2).1 fd todo cut

theorem collect_more {fd : Int} {L : Option Queue} {q : Queue} {pushed : List Netpack} (hempty : packets L = [])
    (htouch : Touches fd L (some q) pushed) :
    (collect (some q) .more).2 = pushed.map (fun np => .payload np.id (np.buffer.take np.size)) ∧
      Touches fd L (collect (some q) .more).1 [] ∧
      ∀ fd', record (collect (some q) .more).1 fd' = record (some q) fd' := by
  obtain ⟨hpopped, hdrained, hhash⟩ := drain_eq (some q)
  have hrecord : ∀ fd', record (drain (some q)).2 fd' = record (some q) fd' := record_eq_of_hash_eq hhash
  simp only [collect]
  refine ⟨?_, ⟨?_, fun fd' hne => ?_, ?_⟩, hrecord⟩
  · rw [hpopped, htouch.packets_eq, hempty, List.nil_append]
  · rw [hhash]
    exact htouch.table
  · rw [hrecord fd', htouch.other fd' hne]
  · rw [hdrained, hempty, List.append_nil]

theorem outcome_more {fd : Int} {L : Option Queue} {q : Queue} {done todo : List Frame} {cut : List UInt8}
    (hempty : packets L = []) (htouch : Touches fd L (some q) (done.map (Frame.pack fd)))
    (hwait : Waiting (some q) fd todo cut) : Outcome fd L (some q, .more) done todo cut := by
  obtain ⟨hreports, htouch', hrecord⟩ := collect_more hempty htouch
  refine ⟨?_, htouch', hwait.congr (hrecord fd)⟩
  rw [hreports, List.map_map]
  apply List.map_congr_left
  intro f _
  simp [Frame.pack]

/-- The end of a frame, whatever of the stream follows it in the chunk. -/
theorem finishFrame_stream {L L' : Option Queue} {fd : Int} (f : Frame) (fs : List Frame) {rest tail : List UInt8}
    (htail : tail.length ≤ 1) (hempty : packets L = []) (htouch : Touches fd L L' []) (hnone : record L' fd = none)
    (hpre : rest <+: Frame.encodeAll fs ++ tail) :
    ∃ result done todo cut, finishFrame L' fd f rest = .ok result ∧ f :: fs = done ++ todo ∧
      f.encode ++ rest = Frame.encodeAll done ++ cut ∧ Outcome fd L result done todo cut := by
  unfold finishFrame
  by_cases hnil : rest = []
  · subst hnil
    exact ⟨_, [f], fs, [], if_pos rfl, rfl, by simp [Frame.encodeAll], by simp [collect], htouch, .idle hnone⟩
  · have hpush := touches_pushData htouch.table fd f.payload f.payload.length
    have hnone' := (record_pushData L' fd f.payload f.payload.length fd).trans hnone
    obtain ⟨q, done, todo, cut, hmore, rfl, rfl, hrest, hwait⟩ :=
      pushMore_stream fs htail fd (pushData L' fd f.payload f.payload.length) rest hpush.table hnone' hnil hpre
    refine ⟨_, f :: done, todo, cut, by rw [if_neg hnil, hmore]; rfl, rfl, ?_,
      outcome_more hempty (htouch.trans (hpush.trans hrest)) hwait⟩
    rw [encodeAll_cons, List.append_assoc]

/-- **One chunk.** Whatever part of its next frame an fd has sent, the next chunk delivers the frames it completes. -/
theorem filterData_stream {L : Option Queue} {fd : Int} {fs : List Frame} {cut chunk tail : List UInt8}
    (htail : tail.length ≤ 1) (hok : TableOk (getQueue L).hash) (hempty : packets L = [])
    (hwait : Waiting L fd fs cut) (hne : chunk ≠ []) (hpre : cut ++ chunk <+: Frame.encodeAll fs ++ tail) :
    ∃ result done todo cut', filterData L fd chunk false = .ok result ∧ fs = done ++ todo ∧
      cut ++ chunk = Frame.encodeAll done ++ cut' ∧ Outcome fd L result done todo cut' := by
  cases fs with
  | nil =>
    cases hwait with
    | idle hnone =>
      obtain ⟨b, rfl⟩ := eq_single_of_prefix htail hne hpre
      obtain ⟨htouch, hwait⟩ := waiting_headerRecord hok hnone b
      refine ⟨(some (saveUncomplete L (headerRecord fd [b])), .nothing), [], [], [b], ?_, rfl, rfl, rfl, htouch,
        hwait⟩
      rw [filterData, (findUncomplete_eq_none_iff L fd).mpr hnone]
      exact freshData_single L fd b
    | tail =>
      have hlen := hpre.length_le
      have hpos := List.length_pos_of_ne_nil hne
      simp [Frame.encodeAll] at hlen
      omega
  | cons f fs =>
    rw [encodeAll_cons, List.append_assoc] at hpre
    rcases filterData_frame hok hwait.begun_head hne hpre with
      ⟨L', hstep, htouch, hbegun⟩ | ⟨L', rest, heq, hrest, htouch, hnone, hstep⟩
    · exact ⟨_, [], f :: fs, cut ++ chunk, hstep, rfl, rfl, rfl, htouch, hbegun.waiting fs⟩
    · rw [hstep, heq]
      exact finishFrame_stream f fs htail hempty htouch hnone hrest

/-! ### Whole runs -/

theorem chunksOf_cons_self (fd : Int) (chunk : List UInt8) (rest : List (Int × List UInt8)) :
    chunksOf fd ((fd, chunk) :: rest) = chunk :: chunksOf fd rest := by
  simp [chunksOf]

theorem chunksOf_cons_of_ne {fd fd' : Int} (hne : fd' ≠ fd) (chunk : List UInt8)
    (rest : List (Int × List UInt8)) : chunksOf fd' ((fd, chunk) :: rest) = chunksOf fd' rest := by
  simp [chunksOf, Ne.symm hne]

theorem reportsOf_append (fd : Int) (xs ys : List Report) :
    reportsOf fd (xs ++ ys) = reportsOf fd xs ++ reportsOf fd ys := List.filterMap_append

theorem reportsOf_payloads_self (fd : Int) (fs : List Frame) :
    reportsOf fd (fs.map fun f => .payload fd f.payload) = fs.map fun f => some f.payload := by
  simp only [reportsOf, List.filterMap_map]
  rw [← List.filterMap_eq_map]
  congr 1
  funext f
  simp [Report.of]

theorem reportsOf_payloads_of_ne {fd fd' : Int} (hne : fd' ≠ fd) (fs : List Frame) :
    reportsOf fd' (fs.map fun f => .payload fd f.payload) = [] := by
  simp [reportsOf, Report.of, Ne.symm hne]

/-- Between two calls the queue is empty and every fd waits for the rest of its stream. -/
structure Ready (L : Option Queue) (todo : Int → List Frame) (cut : Int → List UInt8) : Prop where
  table : TableOk (getQueue L).hash
  empty : packets L = []
  waiting : ∀ fd, Waiting L fd (todo fd) (cut fd)

theorem ready_none (todo : Int → List Frame) : Ready none todo fun _ => [] where
  table := tableOk_new
  empty := packets_none
  waiting := fun fd => .idle (by simp [record, getQueue, Queue.new])

/-- **A run.** Any chunks, of any fds in any order, that make up beginnings of the streams. -/
theorem feedAll_stream (arrivals : List (Int × List UInt8)) {L : Option Queue} {todo : Int → List Frame}
    {cut tail : Int → List UInt8} (htail : ∀ fd, (tail fd).length ≤ 1) (hready : Ready L todo cut)
    (hne : ∀ a ∈ arrivals, a.2 ≠ [])
    (hbytes : ∀ fd, cut fd ++ (chunksOf fd arrivals).flatten <+: Frame.encodeAll (todo fd) ++ tail fd) :
    ∃ L' reports, ∃ done left : Int → List Frame, ∃ cut' : Int → List UInt8,
      feedAll false L arrivals = .ok (L', reports) ∧ Ready L' left cut' ∧ ∀ fd,
        todo fd = done fd ++ left fd ∧
        cut fd ++ (chunksOf fd arrivals).flatten = Frame.encodeAll (done fd) ++ cut' fd ∧
        reportsOf fd reports = (done fd).map fun f => some f.payload := by
  induction arrivals generalizing L todo cut with
  | nil =>
    exact ⟨L, [], fun _ => [], todo, cut, rfl, hready, fun fd => ⟨rfl, by simp [chunksOf, Frame.encodeAll], rfl⟩⟩
  | cons arrival rest ih =>
    obtain ⟨fd, chunk⟩ := arrival
    have hfd := hbytes fd
    rw [chunksOf_cons_self, List.flatten_cons, ← List.append_assoc] at hfd
    obtain ⟨result, done, left, cut', hstep, hsplit, hcut, hout⟩ :=
      filterData_stream (htail fd) hready.table hready.empty (hready.waiting fd) (hne _ List.mem_cons_self)
        ((List.prefix_append _ _).trans hfd)
    -- the other fds neither move on in their streams nor change their records
    have hready' : Ready (collect result.1 result.2).1 (Function.update todo fd left) (Function.update cut fd cut') := by
      refine ⟨hout.touches.table, ?_, fun fd' => ?_⟩
      · rw [hout.touches.packets_eq, hready.empty, List.append_nil]
      · by_cases heq : fd' = fd
        · subst heq
          simpa only [Function.update_self] using hout.waiting
        · simp only [Function.update_of_ne heq]
          exact (hready.waiting fd').congr (hout.touches.other fd' heq)
    obtain ⟨L', reports, done', left', cut'', hrest, hready'', hall⟩ := ih hready'
      (fun a ha => hne a (List.mem_cons_of_mem _ ha)) fun fd' => by
        by_cases heq : fd' = fd
        · subst heq
          rw [hcut, hsplit, List.append_assoc, encodeAll_append, List.append_assoc,
            List.prefix_append_right_inj] at hfd
          simpa only [Function.update_self] using hfd
        · have := hbytes fd'
          rw [chunksOf_cons_of_ne heq] at this
          simpa only [Function.update_of_ne heq] using this
    refine ⟨L', (done.map fun f => .payload fd f.payload) ++ reports,
      fun fd' => if fd' = fd then done ++ done' fd else done' fd', left', cut'', ?_, hready'', fun fd' => ?_⟩
    · rw [← hout.reports]
      exact feedAll_cons hstep hrest
    · obtain ⟨htodo, hconsumed, hreports⟩ := hall fd'
      by_cases heq : fd' = fd
      · subst heq
        rw [Function.update_self] at htodo hconsumed
        simp only [if_true]
        refine ⟨by rw [hsplit, htodo, List.append_assoc], ?_, ?_⟩
        · rw [chunksOf_cons_self, List.flatten_cons, ← List.append_assoc, hcut, List.append_assoc, hconsumed,
            encodeAll_append, List.append_assoc]
        · rw [reportsOf_append, reportsOf_payloads_self, hreports, List.map_append]
      · rw [Function.update_of_ne heq] at htodo hconsumed
        simp only [if_neg heq]
        refine ⟨htodo, by rw [chunksOf_cons_of_ne heq]; exact hconsumed, ?_⟩
        rw [reportsOf_append, reportsOf_payloads_of_ne heq, hreports, List.nil_append]

theorem chunksOf_map_self (fd : Int) (chunks : List (List UInt8)) :
    chunksOf fd (chunks.map fun x => (fd, x)) = chunks := by
  simp [chunksOf, List.filter_map, Function.comp_def]

theorem chunksOf_map_of_ne {fd fd' : Int} (hne : fd' ≠ fd) (chunks : List (List UInt8)) :
    chunksOf fd' (chunks.map fun x => (fd, x)) = [] := by
  simp [chunksOf, List.filter_map, Function.comp_def, Ne.symm hne]

theorem feedAll_one (fd : Int) (fs : List Frame) {tail : List UInt8} (htail : tail.length ≤ 1)
    {chunks : List (List UInt8)} (hne : ∀ x ∈ chunks, x ≠ []) (hpre : chunks.flatten <+: Frame.encodeAll fs ++ tail) :
    ∃ L reports done left cut, feedAll false none (chunks.map fun x => (fd, x)) = .ok (L, reports) ∧
      TableOk (getQueue L).hash ∧ packets L = [] ∧ Waiting L fd left cut ∧ fs = done ++ left ∧
      chunks.flatten = Frame.encodeAll done ++ cut ∧
      reportsOf fd reports = done.map fun f => some f.payload := by
  have htails : ∀ fd' : Int, (if fd' = fd then tail else [] : List UInt8).length ≤ 1 := by
    intro fd'
    split
    · exact htail
    · simp
  obtain ⟨L, reports, done, left, cut, hrun, hready, hall⟩ :=
    feedAll_stream (chunks.map fun x => (fd, x)) htails (ready_none fun fd' => if fd' = fd then fs else [])
      (by
        intro a ha
        obtain ⟨x, hx, rfl⟩ := List.mem_map.mp ha
        exact hne x hx)
      (by
        intro fd'
        by_cases heq : fd' = fd
        · subst heq
          simpa only [chunksOf_map_self, if_true, List.nil_append] using hpre
        · simp only [chunksOf_map_of_ne heq, List.flatten_nil, List.nil_append]
          exact List.nil_prefix)
  obtain ⟨htodo, hconsumed, hreports⟩ := hall fd
  rw [chunksOf_map_self, List.nil_append] at hconsumed
  rw [if_pos rfl] at htodo
  exact ⟨L, reports, done fd, left fd, cut fd, hrun, hready.table, hready.empty, hready.waiting fd, htodo, hconsumed,
    hreports⟩

/-- **Chunk independence.** However the streams of frames of any number of fds are cut into chunks and interleaved,
every fd is reported exactly its own payloads, each once and in order; and what `lpack` writes is such a frame. -/
theorem feedAll_delivers_payloads :
    (∀ (frames : Int → List Frame) (arrivals : List (Int × List UInt8)),
      (∀ a ∈ arrivals, a.2 ≠ []) →
      (∀ fd, (chunksOf fd arrivals).flatten = Frame.encodeAll (frames fd)) →
      ∃ L reports, feedAll false none arrivals = .ok (L, reports) ∧
        ∀ fd, reportsOf fd reports = (frames fd).map fun f => some f.payload) ∧
    ∀ (msg : List UInt8) (hmsg : msg.length ≤ maxPacksize),
      lpack msg = (packFrame msg hmsg).encode ∧ (packFrame msg hmsg).opcode = 2 ∧
        (packFrame msg hmsg).mask = none ∧ (packFrame msg hmsg).payload = msg := by
  refine ⟨fun frames arrivals hne hsplit => ?_, fun msg hmsg => ⟨lpack_eq_encode msg hmsg, rfl, rfl, rfl⟩⟩
  have htail : ∀ fd : Int, ((fun _ => []) fd : List UInt8).length ≤ 1 := fun _ => Nat.zero_le 1
  obtain ⟨L, reports, done, left, cut, hrun, hready, hall⟩ :=
    feedAll_stream arrivals htail (ready_none frames) hne
      (fun fd => by rw [List.nil_append, hsplit fd]; exact List.prefix_append _ [])
  refine ⟨L, reports, hrun, fun fd => ?_⟩
  obtain ⟨htodo, hconsumed, hreports⟩ := hall fd
  rw [List.nil_append, hsplit fd, htodo, encodeAll_append, List.append_cancel_left_eq] at hconsumed
  rw [hreports, htodo, (hready.waiting fd).eq_nil_of_all hconsumed.symm, List.append_nil]

/-- A masked text frame in the 16-bit form, as a browser may send it. -/
def sampleFrame : Frame where
  opcode := 1
  form := .sixteen
  mask := some fun i => UInt8.ofNat (i.val + 1)
  payload := [104, 105]
  opcode_lt := by decide
  opcode_ne_zero := by decide
  opcode_ne_close := by decide
  form_fits := by decide
  payload_le := by decide

theorem feedAll_delivers_payloads_sample :
    ∃ L reports, feedAll false none
        [(3, [0x81]), (5, lpack [7]), (3, [0xfe, 0, 2, 1, 2, 3, 4, 105]), (3, [107])] = .ok (L, reports) ∧
      ∀ fd, reportsOf fd reports = (if fd = 3 then [sampleFrame] else if fd = 5 then [packFrame [7] (by decide)]
        else []).map fun f => some f.payload := by
  apply feedAll_delivers_payloads.1
  · decide
  · intro fd
    by_cases h3 : fd = 3
    · subst h3
      decide
    · by_cases h5 : fd = 5
      · subst h5
        decide
      · simp [chunksOf, Frame.encodeAll, h3, h5, Ne.symm h3, Ne.symm h5]

end SkynetServer.Websocket
