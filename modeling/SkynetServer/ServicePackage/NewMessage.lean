import Mathlib.Data.List.Induction
import SkynetServer.Lib.Frames
import SkynetServer.Lib.RingBuffer

/-!
# The package service: queues and framing

`struct package` of `service_package.c` with its two queues, and `new_message`, which cuts what the socket delivers into
packages. A package on the wire is its length in two bytes, the higher one first, and then its bytes. A queue is
`Lib.RingBuffer` with the growth of `queue_push`; it holds the elements themselves and not their bytes. The loop of
`new_message` goes on, in the middle of a header or of a package, where the last chunk ended. What it has pushed and what it
has kept is what one parse of the whole stream gives, however the stream was cut.
-/

namespace SkynetServer.ServicePackage

open Lib (RingBuffer Framing)

/-- `msg` is the allocated memory. -/
structure Response where
  sz : Nat
  msg : List UInt8
deriving Inhabited, DecidableEq

structure Request where
  source : Nat
  session : Int
deriving Inhabited, DecidableEq

/-! ### The queues -/

section Queue

variable {α : Type} [Inhabited α]

def queueInit : RingBuffer α where
  cap := 4
  head := 0
  tail := 0
  slot := fun _ => default
  head_lt := by decide
  tail_lt := by decide

omit [Inhabited α] in
def queueEmpty (q : RingBuffer α) : Bool := q.head = q.tail

omit [Inhabited α] in
def queuePop (q : RingBuffer α) : Option (α × RingBuffer α) :=
  if q.head = q.tail then none else some (q.slot q.head, q.take)

/-- A full queue is copied from its head on, and the value goes to the last place of the copy. -/
def queuePush (q : RingBuffer α) (value : α) : RingBuffer α :=
  if q.head = RingBuffer.advance q.cap q.tail then
    { cap := q.cap * 2
      head := 0
      tail := q.cap
      slot := Function.update (fun i => if i < q.cap then q.slot ((q.head + i) % q.cap) else default) (q.cap - 1) value
      head_lt := by have := q.head_lt; omega
      tail_lt := by have := q.head_lt; omega }
  else q.put value

omit [Inhabited α] in
def queueSize (q : RingBuffer α) : Nat := if q.head > q.tail then q.tail + q.cap - q.head else q.tail - q.head

@[simp] theorem contents_queueInit : (queueInit : RingBuffer α).contents = [] := rfl

omit [Inhabited α] in
theorem queueEmpty_iff (q : RingBuffer α) : queueEmpty q = true ↔ q.contents = [] := by
  simp [queueEmpty, RingBuffer.contents_eq_nil_iff]

omit [Inhabited α] in
theorem queuePop_eq_none_iff (q : RingBuffer α) : queuePop q = none ↔ q.contents = [] := by
  simp [queuePop, RingBuffer.contents_eq_nil_iff]

omit [Inhabited α] in
theorem contents_of_queuePop {q q' : RingBuffer α} {value : α} (h : queuePop q = some (value, q')) :
    q.contents = value :: q'.contents := by
  unfold queuePop at h
  split at h
  · cases h
  · rename_i hne
    obtain ⟨rfl, rfl⟩ := Prod.mk.inj (Option.some.inj h)
    exact RingBuffer.contents_eq_cons_take q hne

omit [Inhabited α] in
theorem cap_put_lt (q : RingBuffer α) (value : α) : (q.put value).cap < q.cap * 2 := by
  have hhead := q.head_lt
  change q.cap < q.cap * 2
  omega

theorem queuePush_of_full {q : RingBuffer α} (value : α) (hfull : q.head = RingBuffer.advance q.cap q.tail) :
    queuePush q value = (q.put value).regrow (fun _ => default) (q.cap * 2) (cap_put_lt q value) := by
  simp only [queuePush, if_pos hfull, RingBuffer.update_last_of_full q value _ hfull]
  rfl

@[simp] theorem contents_queuePush (q : RingBuffer α) (value : α) :
    (queuePush q value).contents = q.contents ++ [value] := by
  by_cases hfull : q.head = RingBuffer.advance q.cap q.tail
  · rw [queuePush_of_full value hfull, RingBuffer.contents_regrow]
    exact RingBuffer.view_put_of_full q value hfull
  · rw [queuePush, if_neg hfull]
    exact RingBuffer.contents_put q value hfull

omit [Inhabited α] in
theorem queueSize_eq (q : RingBuffer α) : queueSize q = q.contents.length := by
  rw [RingBuffer.length_contents]
  rfl

end Queue

/-! ### The framing of a stream -/

/-- The length that a header stands for. -/
def headerLength (hi lo : UInt8) : Nat := hi.toNat * 256 + lo.toNat

/-- Two bytes of length, then that many bytes. -/
def nextPackage : List UInt8 → Option (List UInt8 × List UInt8)
  | hi :: lo :: rest =>
    if headerLength hi lo ≤ rest.length then some (rest.take (headerLength hi lo), rest.drop (headerLength hi lo))
    else none
  | _ => none

def framing : Framing (List UInt8) UInt8 where
  next := nextPackage
  shorter := by
    intro s a rest h
    unfold nextPackage at h
    split at h
    · split at h
      · obtain ⟨-, rfl⟩ := Prod.mk.inj (Option.some.inj h)
        simp only [List.length_drop, List.length_cons]
        omega
      · cases h
    · cases h
  append := by
    intro s a rest h t
    unfold nextPackage at h
    split at h
    · split at h
      · rename_i hi lo body hle
        obtain ⟨rfl, rfl⟩ := Prod.mk.inj (Option.some.inj h)
        have hle' : headerLength hi lo ≤ (body ++ t).length := by
          rw [List.length_append]
          omega
        simp only [nextPackage, List.cons_append, if_pos hle', List.take_append_of_le_length hle,
          List.drop_append_of_le_length hle]
      · cases h
    · cases h

/-- What is kept of a package that is not complete. -/
structure Unfinished where
  header : Option UInt8 := none
  /-- How many bytes are missing, once the length is known. -/
  missing : Option Nat := none
  copied : List UInt8 := []
deriving DecidableEq

/-- What the rest of a parse stands for. -/
def Unfinished.ofRest : List UInt8 → Unfinished
  | [] => {}
  | [hi] => { header := some hi }
  | hi :: lo :: body => { missing := some (headerLength hi lo - body.length), copied := body }

/-! ### The service -/

structure Package where
  manager : Nat := 0
  fd : Int := 0
  heartbeat : Int := 0
  recv : Int := 0
  init : Bool := false
  closed : Bool := false
  headerSz : Nat := 0
  header : UInt8 × UInt8 := (0, 0)
  uncompleteSz : Int := 0
  uncomplete : Response := ⟨0, []⟩
  request : RingBuffer Request
  response : RingBuffer Response

def packageCreate : Package where
  heartbeat := -1
  uncompleteSz := -1
  request := queueInit
  response := queueInit

/-- The contents of new memory are arbitrary. -/
def skynetMalloc (n : Nat) : List UInt8 := List.replicate n 0

def memcpy (buffer : List UInt8) (offset : Nat) (bytes : List UInt8) : List UInt8 :=
  buffer.take offset ++ bytes ++ buffer.drop (offset + bytes.length)

namespace Package

/-- `P->uncomplete.sz - P->uncomplete_sz`. -/
def offset (P : Package) : Nat := (P.uncomplete.sz - P.uncompleteSz).toNat

/-- The beginning of a turn of the loop, which goes on with what is left of `msg` or returns. -/
def fill (P : Package) (msg : List UInt8) : Package × Option (List UInt8) :=
  if P.uncompleteSz ≥ 0 then
    if msg.length ≥ P.uncompleteSz then
      let uncomplete := { P.uncomplete with msg := memcpy P.uncomplete.msg P.offset (msg.take P.uncompleteSz.toNat) }
      ({ P with
        uncomplete
        response := queuePush P.response uncomplete
        uncompleteSz := -1 }, some (msg.drop P.uncompleteSz.toNat))
    else
      ({ P with
        uncomplete := { P.uncomplete with msg := memcpy P.uncomplete.msg P.offset msg }
        uncompleteSz := P.uncompleteSz - msg.length }, none)
  else (P, some msg)

/-- The end of a turn, once the header is there. -/
def begin (P : Package) (hi lo : UInt8) : Package :=
  let sz := headerLength hi lo
  { P with
    headerSz := 0
    header := (hi, lo)
    uncomplete := ⟨sz, skynetMalloc sz⟩
    uncompleteSz := sz }

theorem length_of_fill {P P' : Package} {msg rest : List UInt8} (h : P.fill msg = (P', some rest)) :
    rest.length ≤ msg.length := by
  unfold fill at h
  split at h
  · split at h
    · obtain ⟨-, hrest⟩ := Prod.mk.inj h
      rw [← Option.some.inj hrest, List.length_drop]
      omega
    · obtain ⟨-, hrest⟩ := Prod.mk.inj h
      cases hrest
  · obtain ⟨-, hrest⟩ := Prod.mk.inj h
    rw [Option.some.inj hrest]

/-- The loop of `new_message`. -/
def loop (P : Package) (msg : List UInt8) : Package :=
  match h : P.fill msg with
  | (P', none) => P'
  | (P', some []) => P'
  | (P', some (first :: rest)) =>
    have hrest : rest.length < msg.length := length_of_fill h
    if P'.headerSz = 0 then
      match rest, hrest with
      | [], _ => { P' with header := (first, P'.header.2), headerSz := 1 }
      | second :: rest, hrest =>
        have : rest.length < msg.length := Nat.lt_of_succ_lt hrest
        loop (P'.begin first second) rest
    else loop (P'.begin P'.header.1 first) rest
termination_by msg.length

def newMessage (P : Package) (msg : List UInt8) : Package := loop { P with recv := P.recv + 1 } msg

/-- `uncomplete_sz` and the header say where the loop goes on. -/
def unfinished (P : Package) : Unfinished :=
  if P.uncompleteSz ≥ 0 then
    { missing := some P.uncompleteSz.toNat, copied := P.uncomplete.msg.take P.offset }
  else { header := if P.headerSz = 0 then none else some P.header.1 }

end Package

/-- The bytes that `send_out` writes to the socket. -/
def sendOut (msg : List UInt8) : Option (List UInt8) :=
  let sz := msg.length
  if sz > 0xffff then none
  else some (memcpy (UInt8.ofNat ((sz &&& 0xff00) >>> 8) :: UInt8.ofNat (sz &&& 0xff) :: skynetMalloc sz) 2 msg)

/-! ### What is kept between two chunks -/

/-- A complete package. -/
def Response.ofBytes (bytes : List UInt8) : Response := ⟨bytes.length, bytes⟩

/-- The bytes of the stream that have been read and do not belong to a complete package. -/
inductive Keeps (P : Package) : List UInt8 → Prop where
  | idle (huncomplete : P.uncompleteSz < 0) (hheader : P.headerSz = 0) : Keeps P []
  | half (huncomplete : P.uncompleteSz < 0) (hheader : P.headerSz = 1) : Keeps P [P.header.1]
  | body {copied : List UInt8} (hheader : P.headerSz = 0)
      (hsz : P.uncomplete.sz = headerLength P.header.1 P.header.2) (hlength : P.uncomplete.msg.length = P.uncomplete.sz)
      (hcopied : copied <+: P.uncomplete.msg) (huncomplete : P.uncompleteSz = P.uncomplete.sz - copied.length) :
      Keeps P (P.header.1 :: P.header.2 :: copied)

theorem offset_of_copied {P : Package} {copied : List UInt8} (hlength : P.uncomplete.msg.length = P.uncomplete.sz)
    (hcopied : copied <+: P.uncomplete.msg) (huncomplete : P.uncompleteSz = P.uncomplete.sz - copied.length) :
    P.uncompleteSz ≥ 0 ∧ P.offset = copied.length := by
  have hle := hcopied.length_le
  constructor
  · omega
  · rw [Package.offset]
    omega

theorem Keeps.unfinished {P : Package} {kept : List UInt8} (h : Keeps P kept) :
    P.unfinished = Unfinished.ofRest kept := by
  cases h with
  | idle huncomplete hheader => simp [Package.unfinished, Unfinished.ofRest, Int.not_le.mpr huncomplete, hheader]
  | half huncomplete hheader => simp [Package.unfinished, Unfinished.ofRest, Int.not_le.mpr huncomplete, hheader]
  | @body copied hheader hsz hlength hcopied huncomplete =>
    have hle := hcopied.length_le
    obtain ⟨hnonneg, hoffset⟩ := offset_of_copied hlength hcopied huncomplete
    have hmissing : P.uncompleteSz.toNat = headerLength P.header.1 P.header.2 - copied.length := by omega
    rw [Package.unfinished, if_pos hnonneg, hoffset, hmissing, Unfinished.ofRest, ← List.prefix_iff_eq_take.mp hcopied]

theorem prefix_memcpy {buffer copied : List UInt8} (hcopied : copied <+: buffer) (bytes : List UInt8) :
    copied ++ bytes <+: memcpy buffer copied.length bytes := by
  rw [memcpy, ← List.prefix_iff_eq_take.mp hcopied]
  exact List.prefix_append _ _

theorem length_memcpy {buffer bytes : List UInt8} {offset : Nat} (h : offset + bytes.length ≤ buffer.length) :
    (memcpy buffer offset bytes).length = buffer.length := by
  simp only [memcpy, List.length_append, List.length_take, List.length_drop]
  omega

/-- What reading `msg` does to a service that has kept `kept`. -/
structure Parses (P : Package) (kept msg : List UInt8) (P' : Package) : Prop where
  response : P'.response.contents = P.response.contents ++ (framing.parse (kept ++ msg)).1.map Response.ofBytes
  keeps : Keeps P' (framing.parse (kept ++ msg)).2
  request : P'.request = P.request
  closed : P'.closed = P.closed
  fd : P'.fd = P.fd

namespace Package

variable {P P' : Package} {msg rest : List UInt8}

/-! The cases of the loop. -/

theorem loop_of_none (h : P.fill msg = (P', none)) : P.loop msg = P' := by
  rw [loop]
  split
  · rename_i heq
    exact (Prod.mk.inj (heq.symm.trans h)).1
  · rename_i heq
    cases heq.symm.trans h
  · rename_i heq
    cases heq.symm.trans h

theorem loop_of_nil (h : P.fill msg = (P', some [])) : P.loop msg = P' := by
  rw [loop]
  split
  · rename_i heq
    cases heq.symm.trans h
  · rename_i heq
    exact (Prod.mk.inj (heq.symm.trans h)).1
  · rename_i heq
    cases heq.symm.trans h

theorem loop_of_half {first : UInt8} (h : P.fill msg = (P', some [first])) (hheader : P'.headerSz = 0) :
    P.loop msg = { P' with header := (first, P'.header.2), headerSz := 1 } := by
  rw [loop]
  split
  · rename_i heq
    cases heq.symm.trans h
  · rename_i heq
    cases heq.symm.trans h
  · rename_i heq
    cases heq.symm.trans h
    rw [if_pos hheader]

theorem loop_of_header {first second : UInt8} (h : P.fill msg = (P', some (first :: second :: rest)))
    (hheader : P'.headerSz = 0) : P.loop msg = (P'.begin first second).loop rest := by
  rw [loop]
  split
  · rename_i heq
    cases heq.symm.trans h
  · rename_i heq
    cases heq.symm.trans h
  · rename_i heq
    cases heq.symm.trans h
    rw [if_pos hheader]

theorem loop_of_second {first : UInt8} (h : P.fill msg = (P', some (first :: rest))) (hheader : P'.headerSz ≠ 0) :
    P.loop msg = (P'.begin P'.header.1 first).loop rest := by
  rw [loop]
  split
  · rename_i heq
    cases heq.symm.trans h
  · rename_i heq
    cases heq.symm.trans h
  · rename_i heq
    cases heq.symm.trans h
    rw [if_neg hheader]

end Package

theorem fill_of_neg {P : Package} (h : P.uncompleteSz < 0) (msg : List UInt8) : P.fill msg = (P, some msg) := by
  rw [Package.fill, if_neg (Int.not_le.mpr h)]

theorem loop_of_fill {P P' : Package} {msg rest : List UInt8} (h : P.fill msg = (P', some rest))
    (hneg : P'.uncompleteSz < 0) : P.loop msg = P'.loop rest := by
  have h' := fill_of_neg hneg rest
  cases rest with
  | nil => rw [Package.loop_of_nil h, Package.loop_of_nil h']
  | cons first rest =>
    by_cases hheader : P'.headerSz = 0
    · cases rest with
      | nil => rw [Package.loop_of_half h hheader, Package.loop_of_half h' hheader]
      | cons second rest => rw [Package.loop_of_header h hheader, Package.loop_of_header h' hheader]
    · rw [Package.loop_of_second h hheader, Package.loop_of_second h' hheader]

theorem fill_body_short {P : Package} {copied msg : List UInt8} (h : Keeps P (P.header.1 :: P.header.2 :: copied))
    (hshort : copied.length + msg.length < headerLength P.header.1 P.header.2) :
    ∃ P', P.fill msg = (P', none) ∧ P'.response = P.response ∧ Keeps P' (P.header.1 :: P.header.2 :: (copied ++ msg)) ∧
      P'.request = P.request ∧ P'.closed = P.closed ∧ P'.fd = P.fd := by
  cases h with
  | body hheader hsz hlength hcopied huncomplete =>
    have hle := hcopied.length_le
    obtain ⟨hnonneg, hoffset⟩ := offset_of_copied hlength hcopied huncomplete
    have hless : ¬ (msg.length ≥ P.uncompleteSz) := by omega
    have hfill : P.fill msg = ({ P with
        uncomplete := { P.uncomplete with msg := memcpy P.uncomplete.msg copied.length msg }
        uncompleteSz := P.uncompleteSz - msg.length }, none) := by
      rw [Package.fill, if_pos hnonneg, if_neg hless, hoffset]
    refine ⟨_, hfill, rfl, ?_, rfl, rfl, rfl⟩
    refine .body (P := { P with
      uncomplete := { P.uncomplete with msg := memcpy P.uncomplete.msg copied.length msg }
      uncompleteSz := P.uncompleteSz - msg.length }) hheader hsz ?_ ?_ ?_
    · exact (length_memcpy (by omega)).trans hlength
    · exact prefix_memcpy hcopied msg
    · change P.uncompleteSz - msg.length = P.uncomplete.sz - (copied ++ msg).length
      rw [huncomplete, List.length_append]
      omega

theorem fill_body_long {P : Package} {copied msg : List UInt8} (h : Keeps P (P.header.1 :: P.header.2 :: copied))
    (hlong : headerLength P.header.1 P.header.2 ≤ copied.length + msg.length) :
    ∃ P' body rest, P.fill msg = (P', some rest) ∧ copied ++ msg = body ++ rest ∧
      body.length = headerLength P.header.1 P.header.2 ∧
      P'.response.contents = P.response.contents ++ [Response.ofBytes body] ∧ Keeps P' [] ∧ P'.uncompleteSz < 0 ∧
      P'.request = P.request ∧ P'.closed = P.closed ∧ P'.fd = P.fd := by
  cases h with
  | body hheader hsz hlength hcopied huncomplete =>
    have hle := hcopied.length_le
    obtain ⟨hnonneg, hoffset⟩ := offset_of_copied hlength hcopied huncomplete
    have henough : msg.length ≥ P.uncompleteSz := by omega
    have htake : (msg.take P.uncompleteSz.toNat).length = P.uncomplete.sz - copied.length := by
      rw [List.length_take]
      omega
    have hbody : memcpy P.uncomplete.msg P.offset (msg.take P.uncompleteSz.toNat) =
        copied ++ msg.take P.uncompleteSz.toNat := by
      rw [hoffset]
      refine ((prefix_memcpy hcopied _).eq_of_length ?_).symm
      rw [length_memcpy (by omega), List.length_append]
      omega
    have hresponse : (⟨P.uncomplete.sz, copied ++ msg.take P.uncompleteSz.toNat⟩ : Response) =
        Response.ofBytes (copied ++ msg.take P.uncompleteSz.toNat) := by
      rw [Response.ofBytes, List.length_append, htake, Nat.add_sub_cancel' (by omega)]
    have hfill : P.fill msg = ({ P with
        uncomplete := Response.ofBytes (copied ++ msg.take P.uncompleteSz.toNat)
        response := queuePush P.response (Response.ofBytes (copied ++ msg.take P.uncompleteSz.toNat))
        uncompleteSz := -1 }, some (msg.drop P.uncompleteSz.toNat)) := by
      rw [Package.fill, if_pos hnonneg, if_pos henough, hbody]
      dsimp only
      rw [hresponse]
    have hneg : (-1 : Int) < 0 := by decide
    refine ⟨_, copied ++ msg.take P.uncompleteSz.toNat, _, hfill, ?_, ?_, contents_queuePush _ _, .idle hneg hheader, hneg,
      rfl, rfl, rfl⟩
    · rw [List.append_assoc, List.take_append_drop]
    · rw [List.length_append]
      omega

theorem keeps_begin (P : Package) (hi lo : UInt8) : Keeps (P.begin hi lo) [hi, lo] := by
  refine .body (P := P.begin hi lo) rfl rfl ?_ List.nil_prefix ?_
  · exact List.length_replicate
  · change (headerLength hi lo : Int) = headerLength hi lo - (0 : Nat)
    omega

theorem parse_nil : framing.parse [] = ([], []) := framing.parse_of_none rfl

theorem parse_single (hi : UInt8) : framing.parse [hi] = ([], [hi]) := framing.parse_of_none rfl

theorem parses_of_neg {P : Package} {kept msg : List UInt8} (h : Keeps P kept) (hneg : P.uncompleteSz < 0)
    (ih : ∀ rest : List UInt8, rest.length < msg.length → ∀ (Q : Package) (kept : List UInt8), Keeps Q kept →
      Parses Q kept rest (Q.loop rest)) : Parses P kept msg (P.loop msg) := by
  have hfill := fill_of_neg hneg msg
  cases h with
  | idle _ hheader =>
    match msg with
    | [] =>
      rw [Package.loop_of_nil hfill]
      exact ⟨by simp [parse_nil], by simpa [parse_nil] using Keeps.idle hneg hheader, rfl, rfl, rfl⟩
    | [first] =>
      rw [Package.loop_of_half hfill hheader]
      refine ⟨by simp [parse_single], ?_, rfl, rfl, rfl⟩
      simpa [parse_single] using
        Keeps.half (P := { P with header := (first, P.header.2), headerSz := 1 }) hneg rfl
    | first :: second :: rest =>
      rw [Package.loop_of_header hfill hheader]
      obtain ⟨hresponse, hkeeps, hrequest, hclosed, hfd⟩ :=
        ih rest (by simp only [List.length_cons]; omega) _ _ (keeps_begin P first second)
      exact ⟨hresponse, hkeeps, hrequest, hclosed, hfd⟩
  | half _ hheader =>
    match msg with
    | [] =>
      rw [Package.loop_of_nil hfill]
      exact ⟨by simp [parse_single], by simpa [parse_single] using Keeps.half hneg hheader, rfl, rfl, rfl⟩
    | first :: rest =>
      rw [Package.loop_of_second hfill (by rw [hheader]; decide)]
      obtain ⟨hresponse, hkeeps, hrequest, hclosed, hfd⟩ :=
        ih rest (by simp only [List.length_cons]; omega) _ _ (keeps_begin P P.header.1 first)
      exact ⟨hresponse, hkeeps, hrequest, hclosed, hfd⟩
  | body hheader hsz hlength hcopied huncomplete =>
    have := hcopied.length_le
    omega

/-- **The loop.** It takes up the stream where the last chunk has left it. -/
theorem parses_loop {P : Package} {kept : List UInt8} (h : Keeps P kept) (msg : List UInt8) :
    Parses P kept msg (P.loop msg) := by
  induction msg using (measure List.length).wf.induction generalizing P kept with
  | h msg ih =>
    have ih' : ∀ rest : List UInt8, rest.length < msg.length → ∀ (Q : Package) (kept : List UInt8), Keeps Q kept →
        Parses Q kept rest (Q.loop rest) := fun rest hrest Q kept hQ => ih rest hrest hQ
    cases h with
    | idle huncomplete hheader => exact parses_of_neg (.idle huncomplete hheader) huncomplete ih'
    | half huncomplete hheader => exact parses_of_neg (.half huncomplete hheader) huncomplete ih'
    | @body copied hheader hsz hlength hcopied huncomplete =>
      have hbody : Keeps P (P.header.1 :: P.header.2 :: copied) := .body hheader hsz hlength hcopied huncomplete
      rcases Nat.lt_or_ge (copied.length + msg.length) (headerLength P.header.1 P.header.2) with hshort | hlong
      · obtain ⟨P', hfill, hresponse, hkeeps, hrequest, hclosed, hfd⟩ := fill_body_short hbody hshort
        have hnone : framing.parse (P.header.1 :: P.header.2 :: copied ++ msg) =
            ([], P.header.1 :: P.header.2 :: copied ++ msg) := by
          refine framing.parse_of_none ?_
          change nextPackage (P.header.1 :: P.header.2 :: (copied ++ msg)) = none
          rw [nextPackage, if_neg]
          rw [List.length_append]
          omega
        rw [Package.loop_of_none hfill]
        refine ⟨?_, ?_, hrequest, hclosed, hfd⟩
        · rw [hnone, hresponse]
          simp
        · rw [hnone]
          exact hkeeps
      · obtain ⟨P', body, rest, hfill, hsplit, hbodyLength, hresponse, hkeeps, hneg, hrequest, hclosed, hfd⟩ :=
          fill_body_long hbody hlong
        have hnext : framing.next (P.header.1 :: P.header.2 :: copied ++ msg) = some (body, rest) := by
          change nextPackage (P.header.1 :: P.header.2 :: (copied ++ msg)) = some (body, rest)
          rw [hsplit, nextPackage, if_pos, ← hbodyLength, List.take_left, List.drop_left]
          rw [List.length_append]
          omega
        have hrest := Package.length_of_fill hfill
        have hshorter : ∀ rest' : List UInt8, rest'.length < rest.length → ∀ (Q : Package) (kept : List UInt8),
            Keeps Q kept → Parses Q kept rest' (Q.loop rest') := fun rest' hrest' => ih' rest' (by omega)
        obtain ⟨hresponse', hkeeps', hrequest', hclosed', hfd'⟩ := parses_of_neg hkeeps hneg hshorter
        rw [List.nil_append] at hresponse' hkeeps'
        rw [loop_of_fill hfill hneg]
        refine ⟨?_, ?_, hrequest'.trans hrequest, hclosed'.trans hclosed, hfd'.trans hfd⟩
        · rw [framing.parse_of_next hnext, hresponse', hresponse, List.append_assoc]
          rfl
        · rw [framing.parse_of_next hnext]
          exact hkeeps'

theorem parses_newMessage {P : Package} {kept : List UInt8} (h : Keeps P kept) (msg : List UInt8) :
    Parses P kept msg (P.newMessage msg) := by
  have hrecv : Keeps { P with recv := P.recv + 1 } kept := by
    cases h with
    | idle huncomplete hheader => exact .idle huncomplete hheader
    | half huncomplete hheader => exact .half (P := { P with recv := P.recv + 1 }) huncomplete hheader
    | body hheader hsz hlength hcopied huncomplete =>
      exact .body (P := { P with recv := P.recv + 1 }) hheader hsz hlength hcopied huncomplete
  obtain ⟨hresponse, hkeeps, hrequest, hclosed, hfd⟩ := parses_loop hrecv msg
  exact ⟨hresponse, hkeeps, hrequest, hclosed, hfd⟩

/-! ### Whole streams -/

/-- The chunks arrive one after the other. -/
def newMessages (P : Package) (chunks : List (List UInt8)) : Package := chunks.foldl Package.newMessage P

theorem keeps_packageCreate : Keeps packageCreate [] := .idle (by decide) rfl

theorem parses_newMessages (chunks : List (List UInt8)) :
    (newMessages packageCreate chunks).response.contents = (framing.parse chunks.flatten).1.map Response.ofBytes ∧
      Keeps (newMessages packageCreate chunks) (framing.parse chunks.flatten).2 := by
  induction chunks using List.reverseRecOn with
  | nil =>
    rw [List.flatten_nil, parse_nil]
    exact ⟨rfl, keeps_packageCreate⟩
  | append_singleton chunks chunk ih =>
    obtain ⟨hresponse, hkeeps⟩ := ih
    have hnew := parses_newMessage hkeeps chunk
    have hstep : newMessages packageCreate (chunks ++ [chunk]) =
        (newMessages packageCreate chunks).newMessage chunk := by simp [newMessages, List.foldl_append]
    rw [hstep, List.flatten_append, List.flatten_singleton, framing.parse_append]
    refine ⟨?_, hnew.keeps⟩
    rw [hnew.response, hresponse, List.map_append]

theorem headerLength_sendOut {sz : Nat} (h : sz ≤ 0xffff) :
    headerLength (UInt8.ofNat ((sz &&& 0xff00) >>> 8)) (UInt8.ofNat (sz &&& 0xff)) = sz := by
  have hhi : (sz &&& 0xff00) >>> 8 = sz / 256 := by
    rw [Nat.shiftRight_and_distrib, Nat.shiftRight_eq_div_pow]
    change sz / 256 &&& (2 ^ 8 - 1) = sz / 256
    rw [Nat.and_two_pow_sub_one_eq_mod]
    omega
  have hlo : sz &&& 0xff = sz % 256 := Nat.and_two_pow_sub_one_eq_mod sz 8
  rw [headerLength, hhi, hlo, UInt8.toNat_ofNat', UInt8.toNat_ofNat']
  omega

theorem next_sendOut {msg bytes : List UInt8} (h : sendOut msg = some bytes) (t : List UInt8) :
    framing.next (bytes ++ t) = some (msg, t) := by
  unfold sendOut at h
  dsimp only at h
  split at h
  · cases h
  · rename_i hle
    obtain rfl := Option.some.inj h
    have hheader := headerLength_sendOut (Nat.le_of_not_lt hle)
    have hbytes : ∀ hi lo : UInt8, memcpy (hi :: lo :: skynetMalloc msg.length) 2 msg = hi :: lo :: msg := by
      intro hi lo
      simp [memcpy, skynetMalloc, Nat.add_comm 2]
    rw [hbytes]
    change nextPackage (_ :: _ :: (msg ++ t)) = _
    rw [nextPackage, hheader, if_pos, List.take_left, List.drop_left]
    rw [List.length_append]
    exact Nat.le_add_right _ _

/-- **Framing.** However a stream is cut into chunks, the packages that have been pushed and what is kept of the last one
are those of one parse of the stream; and a stream of messages that `send_out` has written is parsed back to them. -/
theorem newMessages_eq_parse (chunks : List (List UInt8)) :
    (newMessages packageCreate chunks).response.contents = (framing.parse chunks.flatten).1.map Response.ofBytes ∧
      (newMessages packageCreate chunks).unfinished = Unfinished.ofRest (framing.parse chunks.flatten).2 ∧
      ∀ msgs : List (List UInt8), (∀ msg ∈ msgs, msg.length ≤ 65535) →
        chunks.flatten = msgs.flatMap (fun msg => (sendOut msg).getD []) →
        (newMessages packageCreate chunks).response.contents = msgs.map Response.ofBytes ∧
          (newMessages packageCreate chunks).unfinished = {} := by
  obtain ⟨hresponse, hkeeps⟩ := parses_newMessages chunks
  refine ⟨hresponse, hkeeps.unfinished, fun msgs hmsgs hwritten => ?_⟩
  have hparse : framing.parse chunks.flatten = (msgs, []) := by
    rw [hwritten]
    refine framing.parse_flatMap rfl fun msg hmsg t => ?_
    obtain ⟨bytes, hbytes⟩ : ∃ bytes, sendOut msg = some bytes := by
      simp [sendOut, Nat.not_lt.mpr (hmsgs msg hmsg)]
    rw [hbytes]
    exact next_sendOut hbytes t
  rw [hresponse, hkeeps.unfinished, hparse]
  exact ⟨rfl, rfl⟩

/-- A message of two bytes and an empty one, cut in the middle of a header and of a message. -/
theorem newMessages_eq_parse_two_messages :
    (newMessages packageCreate [[0], [2, 7], [8, 0, 0]]).response.contents = [⟨2, [7, 8]⟩, ⟨0, []⟩] ∧
      (newMessages packageCreate [[0], [2, 7], [8, 0, 0]]).unfinished = {} :=
  (newMessages_eq_parse [[0], [2, 7], [8, 0, 0]]).2.2 [[7, 8], []] (by decide) (by decide)

end SkynetServer.ServicePackage
