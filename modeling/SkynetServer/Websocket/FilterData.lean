import SkynetServer.Websocket.Queue

/-!
# Filtering socket data

`filter_data_` turns the chunks a socket delivers into packets. A chunk of an fd without an unfinished packet
is looked at where it stands, a chunk of an fd with one continues its header byte by byte or fills its payload,
and what lies behind the first packet of a chunk goes through `push_more`. Writing past the header array and
allocating a negative size end the run in a `Fault`: the C program has no defined behaviour after the first
and is aborted by the allocator at the second.
-/

namespace SkynetServer.Websocket

inductive Fault where
  | headerOverrun (index : Nat)
  | badAlloc (size : Int)
deriving DecidableEq

/-- What `lfilter` returns beside the queue. -/
inductive FilterResult where
  | nothing
  | data (fd : Int) (buffer : List UInt8) (size : Nat)
  | more
  | error (fd : Int) (msg : List UInt8)
  | opened (fd : Int) (addr : List UInt8)
  | close (fd : Int)
  | warning (fd : Int) (size : Int)
deriving DecidableEq

def maskBytes (mask : Fin 4 → UInt8) (phase : Nat) (bytes : List UInt8) : List UInt8 :=
  bytes.mapIdx fun i b => b ^^^ mask (Fin.ofNat 4 (i + phase))

/-- The four bytes of a mask key behind the length, if the frame has one. -/
def maskKey (mask : Option (Fin 4 → UInt8)) : List UInt8 :=
  match mask with
  | none => []
  | some key => [key 0, key 1, key 2, key 3]

/-- `bytes` is the part of the buffer the call is told to decode. -/
def decodeWsmaskData (bytes : List UInt8) (uc : Uncomplete) : List UInt8 × Uncomplete :=
  if uc.ismask then
    (maskBytes uc.mask uc.hasunmaskSize bytes, { uc with hasunmaskSize := uc.hasunmaskSize + bytes.length })
  else (bytes, uc)

/-- A record that knows what `read_size` reported. -/
def Uncomplete.ofVars (fd : Int) (v : HeadVars) : Uncomplete :=
  { id := fd, mask := v.mask, ismask := v.ismask, hasunmaskSize := v.hasunmaskSize }

/-- The record of a header that is not complete yet. The copy is bounded in handshake mode only. -/
def saveHeader (fd : Int) (buffer : List UInt8) (handshake : Bool) : Except Fault Uncomplete :=
  if handshake ∧ headersize < buffer.length then
    .ok { id := fd, read := -1, header := buffer.take headersize }
  else if headersize < buffer.length then .error (.headerOverrun headersize)
  else .ok { id := fd, read := -1, header := buffer }

/-- The record of a packet of which `buffer` is the beginning. -/
def savePayload (fd : Int) (v : HeadVars) (packSize : Nat) (buffer : List UInt8) : Uncomplete :=
  let (bytes, uc) := decodeWsmaskData buffer (.ofVars fd v)
  { uc with read := buffer.length, packSize := packSize, packBuffer := bytes }

theorem scanHeader_drop_lt {refused : Int → Bool} {handshake : Bool} {buffer : List UInt8}
    (hsize : 0 ≤ (scanHeader refused handshake buffer {}).size)
    (hrest : ((scanHeader refused handshake buffer {}).buffer.drop
      (scanHeader refused handshake buffer {}).vars.packHeadLength).drop
        (scanHeader refused handshake buffer {}).size.toNat ≠ []) :
    (((scanHeader refused handshake buffer {}).buffer.drop
      (scanHeader refused handshake buffer {}).vars.packHeadLength).drop
        (scanHeader refused handshake buffer {}).size.toNat).length < buffer.length := by
  rw [List.drop_drop, ne_eq, List.drop_eq_nil_iff, not_le] at hrest
  rw [List.drop_drop, List.length_drop]
  cases handshake with
  | true =>
    simp only [scanHeader, if_true] at hsize hrest ⊢
    rcases getHttpHeader_cases buffer with h | h <;> omega
  | false =>
    simp only [scanHeader, Bool.false_eq_true, if_false] at hsize hrest ⊢
    have hlen := skipFrames_length_le refused buffer {}
    obtain ⟨v, hread⟩ := skipFrames_reading refused buffer {}
    have htwo : 2 ≤ (skipFrames refused buffer {}).vars.packHeadLength := by
      have := two_le_packHeadLength (v := v) (by rw [hread]; exact (clampSize_nonneg_iff _).mp hsize)
      rwa [hread] at this
    omega

/-- The packets behind the first one of a chunk. In handshake mode `pack_head_length` stays 0. -/
def pushMore (q : Queue) (fd : Int) (buffer : List UInt8) (handshake : Bool) : Except Fault Queue :=
  let s := scanHeader isInvalidOrClose handshake buffer {}
  if s.size = -1 then
    return saveUncomplete (some q) (← saveHeader fd s.buffer handshake)
  else
    let packSize := s.size.toNat
    let rest := s.buffer.drop s.vars.packHeadLength
    if rest.length < packSize ∧ ¬ handshake then
      return saveUncomplete (some q) (savePayload fd s.vars packSize rest)
    else
      let bytes := (decodeWsmaskData (rest.take packSize) (.ofVars fd s.vars)).1
      let q := pushData (some q) fd bytes packSize
      if rest.drop packSize = [] then return q
      else pushMore q fd (rest.drop packSize) handshake
termination_by buffer.length
decreasing_by
  exact scanHeader_drop_lt ((scanHeader_more_cases handshake buffer {}).resolve_left (by assumption))
    (by assumption)

/-- The state of the loop that continues a header: its answer, the header so far and the bytes not yet used. -/
structure HeaderRead where
  packSize : Int
  vars : HeadVars
  header : List UInt8
  rest : List UInt8

/-- `while (size > 0)` over the chunk, storing one byte at a time. The source's test for a `header_size` above
`HEADERSIZE` comes after a store beyond the array, where the run has already ended. -/
def readHeader (handshake : Bool) : List UInt8 → List UInt8 → HeadVars → Except Fault HeaderRead
  | header, [], v => .ok ⟨0, v, header, []⟩
  | header, b :: rest, v =>
    if headersize ≤ header.length then .error (.headerOverrun header.length)
    else
      let s := scanHeader isInvalid handshake (header ++ [b]) v
      if 0 ≤ s.size ∨ rest = [] then .ok ⟨s.size, s.vars, s.buffer, rest⟩
      else readHeader handshake s.buffer rest s.vars

/-- The packet `uc` gets once its header has been read. -/
def newPack (uc : Uncomplete) (h : HeaderRead) (handshake : Bool) : Uncomplete :=
  let packSize := h.packSize.toNat
  let start := if handshake then h.header.take (min h.header.length packSize) else []
  { uc with
    header := h.header
    packSize := packSize
    mask := h.vars.mask
    ismask := h.vars.ismask
    hasunmaskSize := h.vars.hasunmaskSize
    read := start.length
    packBuffer := start }

/-- Continue the payload of `uc`, which is not in the table at the moment. -/
def fillPack (q : Queue) (fd : Int) (uc : Uncomplete) (buffer : List UInt8) (handshake : Bool) :
    Except Fault (Option Queue × FilterResult) :=
  let need := (uc.packSize - uc.read).toNat
  if buffer.length < need then
    let (bytes, uc) := decodeWsmaskData buffer uc
    let uc := { uc with packBuffer := uc.packBuffer ++ bytes, read := uc.read + buffer.length }
    return (some (link q uc), .nothing)
  else
    let (bytes, uc) := decodeWsmaskData (buffer.take need) uc
    let pack := uc.packBuffer ++ bytes
    if buffer.drop need = [] then return (some q, .data fd pack uc.packSize)
    else do
      let q ← pushMore (pushData (some q) fd pack uc.packSize) fd (buffer.drop need) handshake
      return (some q, .more)

/-- A chunk of an fd whose unfinished packet `uc` has just been taken out of the table. -/
def resumeData (q : Queue) (fd : Int) (uc : Uncomplete) (buffer : List UInt8) (handshake : Bool) :
    Except Fault (Option Queue × FilterResult) :=
  if uc.read < 0 then do
    let h ← readHeader handshake uc.header buffer {}
    if h.packSize = -1 then return (some (link q { uc with header := h.header }), .nothing)
    else if h.packSize = -3 then return (closeUncomplete (some q) fd, .close fd)
    else if h.packSize < 0 then throw (.badAlloc h.packSize)
    else fillPack q fd (newPack uc h handshake) h.rest handshake
  else fillPack q fd uc buffer handshake

theorem resumeData_of_readHeader {fd : Int} {uc : Uncomplete} {buffer : List UInt8} {handshake : Bool}
    {h : HeaderRead} (q : Queue) (hread : uc.read < 0) (heq : readHeader handshake uc.header buffer {} = .ok h) :
    resumeData q fd uc buffer handshake =
      if h.packSize = -1 then .ok (some (link q { uc with header := h.header }), .nothing)
      else if h.packSize = -3 then .ok (closeUncomplete (some q) fd, .close fd)
      else if h.packSize < 0 then .error (.badAlloc h.packSize)
      else fillPack q fd (newPack uc h handshake) h.rest handshake := by
  rw [resumeData, if_pos hread, heq]
  rfl

/-- A chunk of an fd without an unfinished packet. -/
def freshData (L : Option Queue) (fd : Int) (buffer : List UInt8) (handshake : Bool) :
    Except Fault (Option Queue × FilterResult) :=
  let s := scanHeader isInvalid handshake buffer {}
  if s.size = -1 then do
    return (some (saveUncomplete L (← saveHeader fd s.buffer handshake)), .nothing)
  else if s.size = -3 then return (closeUncomplete L fd, .close fd)
  else if s.size < 0 then throw (.badAlloc s.size)
  else
    let packSize := s.size.toNat
    let rest := s.buffer.drop s.vars.packHeadLength
    if rest.length < packSize ∧ ¬ handshake then
      return (some (saveUncomplete L (savePayload fd s.vars packSize rest)), .nothing)
    else
      let bytes := (decodeWsmaskData (rest.take packSize) (.ofVars fd s.vars)).1
      if rest.length = packSize then return (L, .data fd bytes packSize)
      else do
        let q ← pushMore (pushData L fd bytes packSize) fd (rest.drop packSize) handshake
        return (some q, .more)

def filterData (L : Option Queue) (fd : Int) (buffer : List UInt8) (handshake : Bool) :
    Except Fault (Option Queue × FilterResult) :=
  match findUncomplete L fd with
  | some (uc, q) => resumeData q fd uc buffer handshake
  | none => freshData L fd buffer handshake

/-- The socket messages skynet sends to the gate. -/
inductive SocketMessage where
  | data (id : Int) (buffer : List UInt8)
  | connect (id : Int)
  | close (id : Int)
  | accept (id : Int) (ud : Int) (addr : List UInt8)
  | error (id : Int) (msg : List UInt8)
  | warning (id : Int) (ud : Int)

def lfilter (L : Option Queue) (message : SocketMessage) (handshake : Bool) :
    Except Fault (Option Queue × FilterResult) :=
  match message with
  | .data id buffer => filterData L id buffer handshake
  | .connect _ => return (L, .nothing)
  | .close id => return (closeUncomplete L id, .close id)
  | .accept _ ud addr => return (L, .opened ud addr)
  | .error id msg => return (closeUncomplete L id, .error id msg)
  | .warning id ud => return (L, .warning id ud)

end SkynetServer.Websocket
