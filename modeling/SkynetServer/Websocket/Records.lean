import SkynetServer.Websocket.Chunk
import SkynetServer.Websocket.Header

/-!
# The records of unfinished packets

A data message takes the record of its fd out of the table, changes it, and puts it back, frees it or replaces it
somewhere in `push_more`; in between the table may move to a larger queue. Here the bytes are arbitrary. Whatever the
path, the table keeps at most one record for an fd, in the fd's own chain, and the records of other fds stay as they are.
This is true of every call that stays inside the header array, so a run keeps the records exactly when each of its calls has the
room `Header` asks for.
-/

namespace SkynetServer.Websocket

/-! ### What a call for one fd does to the table -/

/-- A change to the queue that concerns `fd` only. -/
def Own (fd : Int) (L L' : Option Queue) : Prop := ∃ pushed, Touches fd L L' pushed

theorem Own.refl {L : Option Queue} (fd : Int) (hok : TableOk (getQueue L).hash) : Own fd L L :=
  ⟨[], hok, fun _ _ => rfl, (List.append_nil _).symm⟩

theorem Own.trans {fd : Int} {L₁ L₂ L₃ : Option Queue} (h : Own fd L₁ L₂) (h' : Own fd L₂ L₃) : Own fd L₁ L₃ := by
  obtain ⟨pushed, htouches⟩ := h
  obtain ⟨pushed', htouches'⟩ := h'
  exact ⟨_, htouches.trans htouches'⟩

theorem own_pushData {L : Option Queue} (hok : TableOk (getQueue L).hash) (fd : Int) (buffer : List UInt8) (size : Nat) :
    Own fd L (some (pushData L fd buffer size)) :=
  ⟨_, touches_pushData hok fd buffer size⟩

theorem tableOk_pushData {L : Option Queue} (hok : TableOk (getQueue L).hash) (fd : Int) (buffer : List UInt8)
    (size : Nat) : TableOk (pushData L fd buffer size).hash := by
  rw [hash_pushData]
  exact hok

theorem own_saveUncomplete {L : Option Queue} {fd : Int} {uc : Uncomplete} (hok : TableOk (getQueue L).hash)
    (hnone : record L fd = none) (hid : uc.id = fd) : Own fd L (some (saveUncomplete L uc)) :=
  ⟨[], (touches_saveUncomplete_of_id hok hid hnone).1⟩

/-- After `close_uncomplete` the fd has no record, whether it had one before or not. -/
theorem own_closeUncomplete {L : Option Queue} (hok : TableOk (getQueue L).hash) (fd : Int) :
    Own fd L (closeUncomplete L fd) ∧ record (closeUncomplete L fd) fd = none := by
  cases hfind : findUncomplete L fd with
  | none =>
    rw [closeUncomplete, hfind]
    exact ⟨.refl fd hok, (findUncomplete_eq_none_iff L fd).mp hfind⟩
  | some found =>
    obtain ⟨uc, q⟩ := found
    rw [closeUncomplete, hfind]
    obtain ⟨htouches, hnone⟩ := touches_findUncomplete hok hfind
    exact ⟨⟨[], htouches⟩, hnone⟩

theorem TableOk.notMem {L : Option Queue} {fd : Int} (hok : TableOk (getQueue L).hash) (hnone : record L fd = none)
    (h : Nat) : ∀ uc ∈ (getQueue L).hash h, uc.id ≠ fd := by
  intro uc huc hid
  have hchain : hashFd fd = h := hid ▸ hok.chain h uc huc
  rw [← hchain] at huc
  exact (record_eq_none_iff L fd).mp hnone uc huc hid

/-! ### Outcomes -/

/-- If the call returns, the outcome has the property. -/
def Yields {α : Type} (P : α → Prop) : Except Fault α → Prop
  | .ok a => P a
  | .error _ => True

theorem Yields.map {α β : Type} {P : α → Prop} {P' : β → Prop} {out : Except Fault α} (h : Yields P out) (f : α → β)
    (hf : ∀ a, P a → P' (f a)) : Yields P' (out.map f) := by
  cases out with
  | ok a => exact hf a h
  | error e => exact trivial

theorem Yields.imp {α : Type} {P P' : α → Prop} {out : Except Fault α} (h : Yields P out) (himp : ∀ a, P a → P' a) :
    Yields P' out := by
  cases out with
  | ok a => exact himp a h
  | error e => exact trivial

theorem yields_saveHeader (fd : Int) (buffer : List UInt8) (handshake : Bool) :
    Yields (fun uc => uc.id = fd) (saveHeader fd buffer handshake) := by
  unfold saveHeader
  split
  · rfl
  · split
    · exact trivial
    · rfl

theorem id_savePayload (fd : Int) (v : HeadVars) (packSize : Nat) (buffer : List UInt8) :
    (savePayload fd v packSize buffer).id = fd := by
  simp only [savePayload, decodeWsmaskData]
  split <;> rfl

theorem id_decodeWsmaskData (bytes : List UInt8) (uc : Uncomplete) : (decodeWsmaskData bytes uc).2.id = uc.id := by
  unfold decodeWsmaskData
  split <;> rfl

/-! ### Every path of `filter_data_` -/

/-- `push_more` starts without a record of `fd`. Each turn of it pushes a packet and leaves it so; the last one may save a
record. -/
theorem yields_pushMore (q : Queue) (fd : Int) (buffer : List UInt8) (handshake : Bool) (hok : TableOk q.hash)
    (hnone : record (some q) fd = none) :
    Yields (fun q' => Own fd (some q) (some q')) (pushMore q fd buffer handshake) := by
  induction q, buffer using pushMore.induct fd handshake with
  | case1 q buffer s hsize =>
    rw [pushMore, if_pos hsize]
    exact (yields_saveHeader fd s.buffer handshake).map (saveUncomplete (some q)) fun uc hid =>
      own_saveUncomplete hok hnone hid
  | case2 q buffer s hsize packSize rest hshort =>
    rw [pushMore, if_neg hsize, if_pos hshort]
    exact own_saveUncomplete (L := some q) hok hnone (id_savePayload _ _ _ _)
  | case3 q buffer s hsize packSize rest hwhole hnil =>
    rw [pushMore, if_neg hsize, if_neg hwhole, if_pos hnil]
    exact own_pushData (L := some q) hok _ _ _
  | case4 q buffer s hsize packSize rest hwhole bytes q' hmore ih =>
    rw [pushMore, if_neg hsize, if_neg hwhole, if_neg hmore]
    have hpushed : Own fd (some q) (some q') := own_pushData (L := some q) hok fd bytes packSize
    have hok' : TableOk q'.hash := tableOk_pushData (L := some q) hok fd bytes packSize
    have hnone' : record (some q') fd = none := (record_pushData _ _ _ _ _).trans hnone
    exact (ih hok' hnone').imp fun q'' hrest => hpushed.trans hrest

theorem yields_pushMore_pushData {L : Option Queue} {fd : Int} (pack : List UInt8) (size : Nat) (rest : List UInt8)
    (handshake : Bool) (hok : TableOk (getQueue L).hash) (hnone : record L fd = none) :
    Yields (fun q' => Own fd L (some q')) (pushMore (pushData L fd pack size) fd rest handshake) := by
  have hnone' : record (some (pushData L fd pack size)) fd = none := (record_pushData _ _ _ _ _).trans hnone
  refine (yields_pushMore _ fd rest handshake (tableOk_pushData hok fd pack size) hnone').imp fun q' hmore => ?_
  exact (own_pushData hok fd pack size).trans hmore

/-- A packet that was taken out of the table is linked again, handed out, or pushed in front of the rest of the chunk. -/
theorem yields_fillPack {q : Queue} {fd : Int} {uc : Uncomplete} (buffer : List UInt8) (handshake : Bool)
    (hok : TableOk q.hash) (hnone : record (some q) fd = none) (hid : uc.id = fd) :
    Yields (fun out => Own fd (some q) out.1) (fillPack q fd uc buffer handshake) := by
  simp only [fillPack]
  split
  · exact own_saveUncomplete (L := some q) hok hnone ((id_decodeWsmaskData buffer uc).trans hid)
  · split
    · exact .refl fd hok
    · exact (yields_pushMore_pushData (L := some q) _ _ _ handshake hok hnone).map
        (fun q' => (some q', FilterResult.more)) fun q' hmore => hmore

theorem yields_resumeData {q : Queue} {fd : Int} {uc : Uncomplete} (buffer : List UInt8) (handshake : Bool)
    (hok : TableOk q.hash) (hnone : record (some q) fd = none) (hid : uc.id = fd) :
    Yields (fun out => Own fd (some q) out.1) (resumeData q fd uc buffer handshake) := by
  by_cases hread : uc.read < 0
  · cases hheader : readHeader handshake uc.header buffer {} with
    | error e =>
      rw [resumeData, if_pos hread, hheader]
      exact trivial
    | ok h =>
      rw [resumeData_of_readHeader q hread hheader]
      split
      · exact own_saveUncomplete (L := some q) hok hnone hid
      · split
        · exact (own_closeUncomplete (L := some q) hok fd).1
        · split
          · exact trivial
          · exact yields_fillPack h.rest handshake hok hnone hid
  · rw [resumeData, if_neg hread]
    exact yields_fillPack buffer handshake hok hnone hid

theorem yields_freshData {L : Option Queue} {fd : Int} (buffer : List UInt8) (handshake : Bool)
    (hok : TableOk (getQueue L).hash) (hnone : record L fd = none) :
    Yields (fun out => Own fd L out.1) (freshData L fd buffer handshake) := by
  simp only [freshData]
  split
  · exact (yields_saveHeader fd _ handshake).map (fun uc => (some (saveUncomplete L uc), FilterResult.nothing))
      fun uc hid => own_saveUncomplete hok hnone hid
  · split
    · exact (own_closeUncomplete hok fd).1
    · split
      · exact trivial
      · split
        · exact own_saveUncomplete hok hnone (id_savePayload _ _ _ _)
        · split
          · exact .refl fd hok
          · exact (yields_pushMore_pushData _ _ _ handshake hok hnone).map
              (fun q' => (some q', FilterResult.more)) fun q' hmore => hmore

/-- A data message, with whatever bytes, concerns its fd only. -/
theorem yields_filterData {L : Option Queue} (fd : Int) (buffer : List UInt8) (handshake : Bool)
    (hok : TableOk (getQueue L).hash) : Yields (fun out => Own fd L out.1) (filterData L fd buffer handshake) := by
  unfold filterData
  cases hfind : findUncomplete L fd with
  | none => exact yields_freshData buffer handshake hok ((findUncomplete_eq_none_iff L fd).mp hfind)
  | some found =>
    obtain ⟨uc, q⟩ := found
    obtain ⟨htouches, hnone⟩ := touches_findUncomplete hok hfind
    have hid : uc.id = fd := (findUncomplete_some hok hfind).1
    refine (yields_resumeData buffer handshake htouches.table hnone hid).imp fun out hown => ?_
    exact Own.trans ⟨[], htouches⟩ hown

/-! ### Runs -/

/-- The fd a call is for. -/
def Call.fd : Call → Option Int
  | .filter (.data fd _) _ => some fd
  | .filter (.close fd) _ => some fd
  | .filter (.error fd _) _ => some fd
  | _ => none

/-- The call says that no more data comes from `fd`. -/
def Call.Ends (fd : Int) : Call → Prop
  | .filter (.close id) _ => id = fd
  | .filter (.error id _) _ => id = fd
  | _ => False

/-- What a call may do to the records, between the state before it and the one after it. -/
structure RecordStep (call : Call) (L L' : Option Queue) : Prop where
  table : TableOk (getQueue L').hash
  other : ∀ fd, call.fd ≠ some fd → record L' fd = record L fd
  ended : ∀ fd, call.Ends fd → ∀ h, ∀ uc ∈ (getQueue L').hash h, uc.id ≠ fd

/-- The states a call may leave. A store outside the header array hits memory that belongs to something else, and C says
nothing about the state after it; an allocation of a negative size does not return. -/
def Call.Leaves (L : Option Queue) (call : Call) (L' : Option Queue) : Prop :=
  match call.run L with
  | .ok L₁ => L' = L₁
  | .error (.headerOverrun _) => True
  | .error (.badAlloc _) => False

/-- The states the calls may lead to, from the one before the first message. -/
inductive Reaches : List Call → Option Queue → Prop where
  | nil : Reaches [] none
  | snoc {done : List Call} {call : Call} {L L' : Option Queue} (hdone : Reaches done L) (hcall : call.Leaves L L') :
      Reaches (done ++ [call]) L'

/-- In every state of the run each fd has at most one record, in its own chain; each call leaves the records of other fds
as they were, and none of an fd whose socket is closed or failed. -/
def RecordsKept (calls : List Call) : Prop :=
  ∀ done L, done <+: calls → Reaches done L →
    TableOk (getQueue L).hash ∧ ∀ call L', done ++ [call] <+: calls → call.Leaves L L' → RecordStep call L L'

theorem recordStep_of_own {L L' : Option Queue} {call : Call} {fd : Int} (hfd : call.fd = some fd) (hown : Own fd L L')
    (hended : call.Ends fd → record L' fd = none) (hends : ∀ fd', call.Ends fd' → fd' = fd) : RecordStep call L L' := by
  obtain ⟨pushed, htouches⟩ := hown
  refine ⟨htouches.table, fun fd' hne => htouches.other fd' ?_, fun fd' hend => ?_⟩
  · rintro rfl
    exact hne hfd
  · obtain rfl := hends fd' hend
    exact htouches.table.notMem (hended hend)

theorem recordStep_of_hash_eq {L L' : Option Queue} {call : Call} (hok : TableOk (getQueue L).hash)
    (heq : (getQueue L').hash = (getQueue L).hash) (hends : ∀ fd, ¬ call.Ends fd) : RecordStep call L L' where
  table := by rw [heq]; exact hok
  other := fun fd _ => record_eq_of_hash_eq heq fd
  ended := fun fd hend => absurd hend (hends fd)

theorem yields_run {L : Option Queue} (call : Call) (hok : TableOk (getQueue L).hash) :
    Yields (RecordStep call L) (call.run L) := by
  cases call with
  | pop =>
    refine recordStep_of_hash_eq hok ?_ fun fd h => h
    cases hpop : lpop L with
    | none => rfl
    | some popped => exact (lpop_some hpop).2
  | filter message handshake =>
    cases message with
    | data fd buffer =>
      refine (yields_filterData fd buffer handshake hok).map (·.1) fun out hown => ?_
      exact recordStep_of_own rfl hown (fun h => h.elim) fun fd' h => h.elim
    | close fd =>
      obtain ⟨hown, hnone⟩ := own_closeUncomplete hok fd
      exact recordStep_of_own rfl hown (fun _ => hnone) fun fd' h => Eq.symm h
    | error fd msg =>
      obtain ⟨hown, hnone⟩ := own_closeUncomplete hok fd
      exact recordStep_of_own rfl hown (fun _ => hnone) fun fd' h => Eq.symm h
    | connect => exact recordStep_of_hash_eq hok rfl fun fd h => h
    | accept => exact recordStep_of_hash_eq hok rfl fun fd h => h
    | warning => exact recordStep_of_hash_eq hok rfl fun fd h => h

theorem reaches_of_runCalls (calls : List Call) : ∀ L, runCalls calls = .ok L → Reaches calls L := by
  refine runCalls_invariant .nil (fun done call L L' hreach hrun => .snoc hreach ?_) calls
  rw [Call.Leaves, hrun]

/-- A run that stays inside the header array has one state only. -/
theorem runCalls_of_reaches {calls done : List Call} {L : Option Queue} (hsafe : HeaderSafe calls)
    (hreach : Reaches done L) (hdone : done <+: calls) : runCalls done = .ok L := by
  induction hreach with
  | nil => rfl
  | snoc hreach hcall ih =>
    rename_i done call L L'
    have hbefore := ih ((List.prefix_append _ _).trans hdone)
    have hnext := (hsafe _ hdone).1
    rw [runCalls_snoc, hbefore] at hnext ⊢
    change ∀ index, call.run L ≠ _ at hnext
    change call.run L = _
    unfold Call.Leaves at hcall
    cases hrun : call.run L with
    | ok L₁ =>
      rw [hrun] at hcall
      rw [hcall]
    | error fault =>
      rw [hrun] at hcall
      cases fault with
      | headerOverrun index => exact absurd hrun (hnext index)
      | badAlloc size => exact hcall.elim

theorem tableOk_of_runCalls (calls : List Call) : ∀ L, runCalls calls = .ok L → TableOk (getQueue L).hash := by
  refine runCalls_invariant (P := fun _ L => TableOk (getQueue L).hash) tableOk_new
    (fun done call L L' hok hrun => ?_) calls
  have hstep := yields_run call hok
  rw [hrun] at hstep
  exact hstep.table

theorem recordsKept_of_room {calls : List Call} (hroom : RoomAlong calls) : RecordsKept calls := by
  have hsafe := headerSafe_of_room hroom
  intro done L hdone hreach
  have hok := tableOk_of_runCalls done L (runCalls_of_reaches hsafe hreach hdone)
  refine ⟨hok, fun call L' hnext hcall => ?_⟩
  have hlast := runCalls_of_reaches hsafe (.snoc hreach hcall) hnext
  rw [runCalls_snoc, runCalls_of_reaches hsafe hreach hdone] at hlast
  change call.run L = .ok L' at hlast
  have hstep := yields_run call hok
  rw [hlast] at hstep
  exact hstep

/-- A table with two records of one fd. -/
def twice : Queue := setChain .new (hashFd 0) [{ id := 0 }, { id := 0 }]

theorem not_tableOk_twice : ¬ TableOk twice.hash := by
  intro hok
  have hnodup := hok.nodup (hashFd 0)
  rw [twice, setChain_hash_self] at hnodup
  simp at hnodup

theorem room_of_recordsKept {calls : List Call} (hkept : RecordsKept calls) : RoomAlong calls := by
  intro done call hdone L hrun
  have hreach := reaches_of_runCalls done L hrun
  have hstep := bounded_run call (fits_of_runCalls done L hrun)
  cases hout : call.run L with
  | ok L' =>
    rw [hout] at hstep
    cases hstep with
    | ok _ _ h => exact h
  | error fault =>
    rw [hout] at hstep
    cases hstep with
    | aborted _ h => exact h
    | overrun index _ =>
      -- after the store outside the array the table may be anything
      have hany : call.Leaves L (some twice) := by rw [Call.Leaves, hout]; trivial
      exact absurd (hkept _ _ hdone (.snoc hreach hany)).1 not_tableOk_twice

/-- **Records are unique and isolated.** A run of calls, on whatever bytes and in whatever modes, keeps the records of
the fds apart exactly when each call finds the room its header needs. -/
theorem recordsKept_iff_roomAlong (calls : List Call) : RecordsKept calls ↔ RoomAlong calls :=
  ⟨room_of_recordsKept, recordsKept_of_room⟩

/-- A complete header that announces `2 ^ 32 - 1` bytes, which `read_size` reports as an incomplete one. -/
def hostileHeader : List UInt8 := [0x82, 0x7f, 0, 0, 0, 0, 0xff, 0xff, 0xff, 0xff]

theorem scanHeader_hostileHeader (rest : List UInt8) :
    (scanHeader isInvalid false (hostileHeader ++ rest) {}).place = (-1, hostileHeader ++ rest) := by
  have hanswer : (readSize (hostileHeader ++ rest) {}).1 = -1 := by
    have hshort : ¬ (hostileHeader ++ rest).length < websocketHeaderLen + 8 := by
      simp [hostileHeader, websocketHeaderLen]
    have hlength : ((hostileHeader ++ rest).drop websocketHeaderLen).take 8 = [0, 0, 0, 0, 0xff, 0xff, 0xff, 0xff] := rfl
    have hfirst : (hostileHeader ++ rest).getD 0 0 = 0x82 := rfl
    have hsecond : (hostileHeader ++ rest).getD 1 0 = 0x7f := rfl
    have htwo : ¬ (hostileHeader ++ rest).length < 2 := fun h => hshort (h.trans (by decide))
    simp only [readSize, hfirst, hsecond, hlength, if_neg hshort, if_neg htwo]
    rw [if_neg (by decide), if_neg (by decide), if_neg (by decide), if_neg (by decide), if_neg (by decide), readMask,
      if_neg (by decide)]
    decide
  have hloop : (skipFrames isInvalid (hostileHeader ++ rest) {}).place = (-1, hostileHeader ++ rest) := by
    obtain ⟨v, hplace⟩ := skipFrames_cons_cons isInvalid 0x82 0x7f ([0, 0, 0, 0, 0xff, 0xff, 0xff, 0xff] ++ rest) {} {}
    have : (readSize (0x82 :: 0x7f :: ([0, 0, 0, 0, 0xff, 0xff, 0xff, 0xff] ++ rest)) {}).1 = -1 := hanswer
    rw [this] at hplace
    exact hplace
  obtain ⟨hsize, hbuffer⟩ := Prod.mk.inj hloop
  simp only [scanHeader, Scan.place, Bool.false_eq_true, if_false, hsize, hbuffer]
  rfl

/-- It is copied into the header array with all that stands behind it. -/
theorem not_freshRoom_hostileHeader {rest : List UInt8} (hlong : headersize < (hostileHeader ++ rest).length) :
    ¬ FreshRoom (hostileHeader ++ rest) := by
  rintro ⟨hfits, -⟩
  obtain ⟨hsize, hbuffer⟩ := Prod.mk.inj (scanHeader_hostileHeader rest)
  have hroom := hfits hsize
  rw [hbuffer] at hroom
  omega

/-- One fd has begun a frame; a chunk of another one then runs over the end of its record. -/
theorem not_recordsKept_long_header :
    ¬ RecordsKept [.filter (.data 4 [0x82]) false,
      .filter (.data 3 (hostileHeader ++ List.replicate 2000 0)) false] := by
  intro hkept
  have hfirst : runCalls [.filter (.data 4 [0x82]) false] = .ok (some (saveUncomplete none (headerRecord 4 [0x82]))) := rfl
  have hnone : record (some (saveUncomplete none (headerRecord 4 [0x82]))) 3 = none := rfl
  have hroom : HeaderRoom _ _ _ _ := room_of_recordsKept hkept [.filter (.data 4 [0x82]) false] _ List.prefix_rfl _ hfirst
  rw [HeaderRoom, hnone] at hroom
  refine not_freshRoom_hostileHeader ?_ (hroom rfl)
  rw [List.length_append, List.length_replicate]
  decide

end SkynetServer.Websocket
