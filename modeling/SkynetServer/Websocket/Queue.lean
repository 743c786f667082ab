import SkynetServer.Lib.RingBuffer
import SkynetServer.Websocket.ReadSize

/-!
# The queue userdata

`struct queue` holds the ring of complete packets and the hash table of unfinished ones. The ring is `Lib.RingBuffer`
with the growth of `expand_queue`, a chain of the table is the list of its records. The userdata is created on
first use, so the Lua value at index 1 is an `Option`.
-/

namespace SkynetServer.Websocket

open Lib (RingBuffer)

structure Netpack where
  id : Int
  size : Nat
  buffer : List UInt8
deriving Inhabited, DecidableEq

/-- `header` holds the first `header_size` bytes of the C array, `packBuffer` the first `read` bytes of the
allocated packet. -/
structure Uncomplete where
  id : Int
  packSize : Nat := 0
  packBuffer : List UInt8 := []
  header : List UInt8 := []
  read : Int := 0
  mask : Fin 4 → UInt8 := fun _ => 0
  ismask : Bool := false
  hasunmaskSize : Nat := 0

structure Queue where
  ring : RingBuffer Netpack
  hash : Nat → List Uncomplete

def hashFd (fd : Int) : Nat :=
  let a := fd >>> (24 : Nat)
  let b := fd >>> (12 : Nat)
  let c := fd
  ((a + b + c) % 2 ^ 32).toNat % hashsize

/-- The queue `get_queue` creates. -/
def Queue.new : Queue where
  ring := { cap := queuesize, head := 0, tail := 0, slot := fun _ => default,
            head_lt := by decide, tail_lt := by decide }
  hash := fun _ => []

def getQueue (L : Option Queue) : Queue := L.getD Queue.new

/-! ### The ring of packets -/

/-- The old userdata is left empty and unreachable. -/
def expandQueue (q : Queue) : Queue where
  ring := q.ring.regrow (fun _ => default) (q.ring.cap + queuesize) (Nat.lt_add_of_pos_right (by decide))
  hash := q.hash

def pushData (L : Option Queue) (fd : Int) (buffer : List UInt8) (size : Nat) : Queue :=
  let q := getQueue L
  let q := { q with ring := q.ring.put { id := fd, size := size, buffer := buffer } }
  if q.ring.head = q.ring.tail then expandQueue q else q

def lpop (L : Option Queue) : Option (Netpack × Queue) :=
  match L with
  | none => none
  | some q =>
    if q.ring.head = q.ring.tail then none
    else some (q.ring.slot q.ring.head, { q with ring := q.ring.take })

/-- The packets waiting in the queue. -/
def packets (L : Option Queue) : List Netpack := (getQueue L).ring.contents

@[simp] theorem getQueue_some (q : Queue) : getQueue (some q) = q := rfl

@[simp] theorem packets_none : packets none = [] := rfl

theorem contents_expandQueue (q : Queue) : (expandQueue q).ring.contents = q.ring.view q.ring.cap :=
  RingBuffer.contents_regrow _ _ _ _

theorem packets_pushData (L : Option Queue) (fd : Int) (buffer : List UInt8) (size : Nat) :
    packets (some (pushData L fd buffer size)) = packets L ++ [⟨fd, size, buffer⟩] := by
  simp only [packets, pushData, getQueue_some]
  split
  · rename_i hfull
    rw [contents_expandQueue]
    exact RingBuffer.view_put_of_full _ _ hfull
  · rename_i hfull
    exact RingBuffer.contents_put _ _ hfull

@[simp] theorem hash_pushData (L : Option Queue) (fd : Int) (buffer : List UInt8) (size : Nat) :
    (pushData L fd buffer size).hash = (getQueue L).hash := by
  simp only [pushData]
  split <;> rfl

theorem lpop_eq_none_iff (L : Option Queue) : lpop L = none ↔ packets L = [] := by
  cases L with
  | none => simp [lpop]
  | some q => simp [lpop, packets, RingBuffer.contents_eq_nil_iff]

theorem lpop_some {L : Option Queue} {np : Netpack} {q : Queue} (h : lpop L = some (np, q)) :
    packets L = np :: packets (some q) ∧ q.hash = (getQueue L).hash := by
  cases L with
  | none => simp [lpop] at h
  | some p =>
    simp only [lpop] at h
    split at h
    · cases h
    · rename_i hne
      obtain ⟨rfl, rfl⟩ := Prod.mk.inj (Option.some.inj h)
      exact ⟨RingBuffer.contents_eq_cons_take _ hne, rfl⟩

/-- `lpop` called until it returns nothing, at most `n` times. -/
def popAll : Nat → Option Queue → List Netpack × Option Queue
  | 0, L => ([], L)
  | n + 1, L =>
    match lpop L with
    | none => ([], L)
    | some (np, q) =>
      let (rest, L') := popAll n (some q)
      (np :: rest, L')

theorem popAll_eq (n : Nat) (L : Option Queue) (hn : (packets L).length ≤ n) :
    (popAll n L).1 = packets L ∧ packets (popAll n L).2 = [] ∧
      (getQueue (popAll n L).2).hash = (getQueue L).hash := by
  induction n generalizing L with
  | zero =>
    have hnil : packets L = [] := List.eq_nil_of_length_eq_zero (by omega)
    exact ⟨hnil.symm, hnil, rfl⟩
  | succ n ih =>
    rw [popAll]
    split
    · rename_i hnone
      have hnil := (lpop_eq_none_iff L).mp hnone
      exact ⟨hnil.symm, hnil, rfl⟩
    · rename_i np q hsome
      obtain ⟨hpackets, hhash⟩ := lpop_some hsome
      rw [hpackets, List.length_cons] at hn
      obtain ⟨hfst, hsnd, htable⟩ := ih (some q) (by omega)
      refine ⟨?_, hsnd, htable.trans hhash⟩
      rw [hpackets, ← hfst]

/-- `lpop` called until the queue is empty, as `dispatch_queue` does. -/
def drain (L : Option Queue) : List Netpack × Option Queue := popAll (getQueue L).ring.cap L

theorem drain_eq (L : Option Queue) :
    (drain L).1 = packets L ∧ packets (drain L).2 = [] ∧ (getQueue (drain L).2).hash = (getQueue L).hash := by
  apply popAll_eq
  rw [packets, RingBuffer.length_contents]
  exact (RingBuffer.size_lt _).le

/-! ### The table of unfinished packets -/

/-- Walk a chain, take the first record of `fd` out of it. -/
def unlink (fd : Int) : List Uncomplete → Option (Uncomplete × List Uncomplete)
  | [] => none
  | uc :: rest =>
    if uc.id = fd then some (uc, rest)
    else (unlink fd rest).map fun (found, rest') => (found, uc :: rest')

/-- `q->hash[h] = chain`. -/
def setChain (q : Queue) (h : Nat) (chain : List Uncomplete) : Queue :=
  { q with hash := Function.update q.hash h chain }

@[simp] theorem setChain_hash_self (q : Queue) (h : Nat) (chain : List Uncomplete) :
    (setChain q h chain).hash h = chain := Function.update_self _ _ _

theorem setChain_hash_of_ne (q : Queue) {h h' : Nat} (chain : List Uncomplete) (hne : h' ≠ h) :
    (setChain q h chain).hash h' = q.hash h' := Function.update_of_ne hne _ _

@[simp] theorem packets_setChain (q : Queue) (h : Nat) (chain : List Uncomplete) :
    packets (some (setChain q h chain)) = packets (some q) := rfl

def findUncomplete (L : Option Queue) (fd : Int) : Option (Uncomplete × Queue) :=
  match L with
  | none => none
  | some q =>
    (unlink fd (q.hash (hashFd fd))).map fun (uc, chain) => (uc, setChain q (hashFd fd) chain)

/-- `uc->next = q->hash[h]; q->hash[h] = uc`. -/
def link (q : Queue) (uc : Uncomplete) : Queue :=
  setChain q (hashFd uc.id) (uc :: q.hash (hashFd uc.id))

def saveUncomplete (L : Option Queue) (uc : Uncomplete) : Queue := link (getQueue L) uc

def closeUncomplete (L : Option Queue) (fd : Int) : Option Queue :=
  match findUncomplete L fd with
  | none => L
  | some (_, q) => some q

/-- The record of `fd`, if it has one. -/
def record (L : Option Queue) (fd : Int) : Option Uncomplete :=
  ((getQueue L).hash (hashFd fd)).find? fun uc => uc.id = fd

/-- Each record lies in the chain of its own fd, and no fd has two. -/
structure TableOk (hash : Nat → List Uncomplete) : Prop where
  chain : ∀ h, ∀ uc ∈ hash h, hashFd uc.id = h
  nodup : ∀ h, ((hash h).map (·.id)).Nodup

theorem tableOk_new : TableOk (getQueue none).hash where
  chain := by simp [getQueue, Queue.new]
  nodup := by simp [getQueue, Queue.new]

theorem unlink_eq_none_iff (fd : Int) (chain : List Uncomplete) :
    unlink fd chain = none ↔ ∀ uc ∈ chain, uc.id ≠ fd := by
  induction chain with
  | nil => simp [unlink]
  | cons uc rest ih =>
    rw [unlink]
    split
    · rename_i heq
      simp [heq]
    · rename_i hne
      simp [ih, hne]

theorem unlink_some {fd : Int} {chain rest : List Uncomplete} {uc : Uncomplete}
    (h : unlink fd chain = some (uc, rest)) :
    uc.id = fd ∧ chain.find? (fun u => u.id = fd) = some uc ∧ rest.Sublist chain ∧
      (chain.map (·.id)).Perm (fd :: rest.map (·.id)) ∧
      ∀ fd' ≠ fd, rest.find? (fun u => u.id = fd') = chain.find? (fun u => u.id = fd') := by
  induction chain generalizing uc rest with
  | nil => cases h
  | cons first tail ih =>
    rw [unlink] at h
    split at h
    · rename_i heq
      obtain ⟨rfl, rfl⟩ := Prod.mk.inj (Option.some.inj h)
      refine ⟨heq, by simp [heq], List.sublist_cons_self _ _, by simp [heq], fun fd' hne => ?_⟩
      rw [List.find?_cons_of_neg]
      simp [heq, Ne.symm hne]
    · rename_i hne
      obtain ⟨⟨found, rest'⟩, hfound, heq⟩ := Option.map_eq_some_iff.mp h
      obtain ⟨rfl, rfl⟩ := Prod.mk.inj heq
      obtain ⟨hid, hfind, hsub, hperm, hother⟩ := ih hfound
      refine ⟨hid, ?_, hsub.cons_cons _, ?_, fun fd' hne' => ?_⟩
      · rw [List.find?_cons_of_neg (by simpa using hne), hfind]
      · rw [List.map_cons, List.map_cons]
        exact (hperm.cons _).trans (List.Perm.swap _ _ _)
      · rw [List.find?_cons, List.find?_cons, hother fd' hne']

theorem record_eq_none_iff (L : Option Queue) (fd : Int) :
    record L fd = none ↔ ∀ uc ∈ (getQueue L).hash (hashFd fd), uc.id ≠ fd := by
  simp [record, List.find?_eq_none]

theorem findUncomplete_eq_none_iff (L : Option Queue) (fd : Int) :
    findUncomplete L fd = none ↔ record L fd = none := by
  rw [record_eq_none_iff]
  cases L with
  | none => simp [findUncomplete, getQueue, Queue.new]
  | some q => simp [findUncomplete, unlink_eq_none_iff]

/-- Finding a record takes it out of the table and touches nothing else. -/
theorem findUncomplete_some {L : Option Queue} {fd : Int} {uc : Uncomplete} {q : Queue}
    (hok : TableOk (getQueue L).hash) (h : findUncomplete L fd = some (uc, q)) :
    uc.id = fd ∧ record L fd = some uc ∧ TableOk q.hash ∧ record (some q) fd = none ∧
      (∀ fd' ≠ fd, record (some q) fd' = record L fd') ∧ packets (some q) = packets L := by
  cases L with
  | none => simp [findUncomplete] at h
  | some p =>
    obtain ⟨⟨found, chain⟩, hfound, heq⟩ := Option.map_eq_some_iff.mp h
    obtain ⟨rfl, rfl⟩ := Prod.mk.inj heq
    obtain ⟨hid, hfind, hsub, hperm, hother⟩ := unlink_some hfound
    have hnodup : (fd :: chain.map (·.id)).Nodup := hperm.nodup_iff.mp (hok.nodup _)
    refine ⟨hid, hfind, ⟨fun h u hu => ?_, fun h => ?_⟩, ?_, fun fd' hne => ?_, rfl⟩
    · by_cases hh : h = hashFd fd
      · subst hh
        rw [setChain_hash_self] at hu
        exact hok.chain _ u (hsub.mem hu)
      · rw [setChain_hash_of_ne _ _ hh] at hu
        exact hok.chain h u hu
    · by_cases hh : h = hashFd fd
      · subst hh
        rw [setChain_hash_self]
        exact (List.nodup_cons.mp hnodup).2
      · rw [setChain_hash_of_ne _ _ hh]
        exact hok.nodup h
    · rw [record_eq_none_iff]
      intro u hu
      rw [getQueue_some, setChain_hash_self] at hu
      intro hfd
      exact (List.nodup_cons.mp hnodup).1 (List.mem_map.mpr ⟨u, hu, hfd⟩)
    · simp only [record, getQueue_some]
      by_cases hh : hashFd fd' = hashFd fd
      · rw [hh, setChain_hash_self]
        exact hother fd' hne
      · rw [setChain_hash_of_ne _ _ hh]

theorem findUncomplete_of_record {L : Option Queue} {fd : Int} {uc : Uncomplete}
    (hok : TableOk (getQueue L).hash) (h : record L fd = some uc) :
    ∃ q, findUncomplete L fd = some (uc, q) := by
  cases hfind : findUncomplete L fd with
  | none => rw [(findUncomplete_eq_none_iff L fd).mp hfind] at h; cases h
  | some found =>
    obtain ⟨uc', q⟩ := found
    obtain ⟨-, hrecord, -⟩ := findUncomplete_some hok hfind
    rw [h] at hrecord
    exact ⟨q, by rw [Option.some.inj hrecord]⟩

/-- Linking a record of an fd that has none gives it that record and touches nothing else. -/
theorem link_spec {q : Queue} {uc : Uncomplete} (hok : TableOk q.hash)
    (hnone : record (some q) uc.id = none) :
    TableOk (link q uc).hash ∧ record (some (link q uc)) uc.id = some uc ∧
      (∀ fd' ≠ uc.id, record (some (link q uc)) fd' = record (some q) fd') ∧
      packets (some (link q uc)) = packets (some q) := by
  have habsent := (record_eq_none_iff _ _).mp hnone
  refine ⟨⟨fun h u hu => ?_, fun h => ?_⟩, ?_, fun fd' hne => ?_, rfl⟩
  · by_cases hh : h = hashFd uc.id
    · subst hh
      rw [link, setChain_hash_self, List.mem_cons] at hu
      rcases hu with rfl | hu
      · rfl
      · exact hok.chain _ u hu
    · rw [link, setChain_hash_of_ne _ _ hh] at hu
      exact hok.chain h u hu
  · by_cases hh : h = hashFd uc.id
    · subst hh
      rw [link, setChain_hash_self, List.map_cons, List.nodup_cons]
      refine ⟨fun hmem => ?_, hok.nodup _⟩
      obtain ⟨u, hu, hid⟩ := List.mem_map.mp hmem
      exact habsent u hu hid
    · rw [link, setChain_hash_of_ne _ _ hh]
      exact hok.nodup h
  · simp [record, link]
  · simp only [record, link, getQueue_some]
    by_cases hh : hashFd fd' = hashFd uc.id
    · rw [hh, setChain_hash_self, List.find?_cons_of_neg]
      simpa using Ne.symm hne
    · rw [setChain_hash_of_ne _ _ hh]

end SkynetServer.Websocket
