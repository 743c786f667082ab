import Mathlib.Data.Fin.VecNotation
import Mathlib.Data.List.GetD
import Mathlib.Data.List.OfFn
import SkynetServer.Lib.Fifo
import SkynetServer.ServicePackage.NewMessage

/-!
# The bytes of a queue

`struct queue` holds elements of one size, set by `queue_init`, in a block of memory. `NewMessage` has a queue of the
elements themselves; here the block is there, with the copies `memcpy` makes into and out of it, for every element size.
The slots of the block form a `Lib.RingBuffer`, and a push or a pop on the block is one on that ring.
-/

namespace SkynetServer.ServicePackage

open Lib

/-- The bytes of an element of size `sz`. -/
abbrev Element (sz : Nat) : Type := Fin sz → UInt8

namespace ByteQueue

/-- Slot `i` of a block of elements of size `sz`. -/
def slot (sz : Nat) (buffer : List UInt8) (i : Nat) : Element sz := fun k => buffer.getD (i * sz + k) 0

/-- `memcpy` of one element into slot `i`. -/
def setSlot {sz : Nat} (buffer : List UInt8) (i : Nat) (value : Element sz) : List UInt8 :=
  memcpy buffer (i * sz) (List.ofFn value)

theorem slot_end_le (sz : Nat) {cap i : Nat} (hi : i < cap) : i * sz + sz ≤ cap * sz := by
  have : (i + 1) * sz ≤ cap * sz := Nat.mul_le_mul_right sz hi
  rwa [Nat.succ_mul] at this

theorem length_setSlot {sz : Nat} {buffer : List UInt8} {cap i : Nat} (value : Element sz)
    (hlength : buffer.length = cap * sz) (hi : i < cap) : (setSlot buffer i value).length = cap * sz := by
  rw [setSlot, length_memcpy, hlength]
  rw [List.length_ofFn, hlength]
  exact slot_end_le sz hi

theorem slot_setSlot_self {sz : Nat} {buffer : List UInt8} {cap i : Nat} (value : Element sz)
    (hlength : buffer.length = cap * sz) (hi : i < cap) : slot sz (setSlot buffer i value) i = value := by
  funext k
  have hend := slot_end_le sz hi
  have hstart : (buffer.take (i * sz)).length = i * sz := List.length_take_of_le (by omega)
  rw [slot, setSlot, memcpy, List.append_assoc, List.getD_append_right _ _ _ _ (by omega), hstart,
    Nat.add_sub_cancel_left, List.getD_append _ _ _ _ (by rw [List.length_ofFn]; exact k.isLt)]
  simp

theorem slot_setSlot_of_ne {sz : Nat} {buffer : List UInt8} {cap i j : Nat} (value : Element sz)
    (hlength : buffer.length = cap * sz) (hi : i < cap) (hne : j ≠ i) :
    slot sz (setSlot buffer i value) j = slot sz buffer j := by
  funext k
  have hend := slot_end_le sz hi
  have hstart : (buffer.take (i * sz)).length = i * sz := List.length_take_of_le (by omega)
  have hk := k.isLt
  rw [slot, slot, setSlot, memcpy]
  rcases Nat.lt_or_gt_of_ne hne with hlt | hgt
  · have hbefore := slot_end_le sz hlt
    rw [List.append_assoc, List.getD_append _ _ _ _ (by omega)]
    simp only [List.getD_eq_getElem?_getD]
    rw [List.getElem?_take_of_lt (by omega)]
  · have hafter := slot_end_le sz hgt
    have hcopied : (buffer.take (i * sz) ++ List.ofFn value).length = i * sz + sz := by
      rw [List.length_append, hstart, List.length_ofFn]
    rw [List.getD_append_right _ _ _ _ (by omega), hcopied, List.length_ofFn]
    simp only [List.getD_eq_getElem?_getD, List.getElem?_drop]
    congr 2
    omega

/-- The loop over a full block: `n` slots are left, and the next one goes from `head` of the old block to place `i` of the
new one. -/
def copySlots (sz : Nat) (buffer : List UInt8) (cap : Nat) : Nat → Nat → Nat → List UInt8 → List UInt8
  | 0, _, _, tmp => tmp
  | n + 1, i, head, tmp =>
    copySlots sz buffer cap n (i + 1) (RingBuffer.advance cap head) (setSlot tmp i (slot sz buffer head))

theorem length_copySlots {sz cap cap' : Nat} {buffer : List UInt8} (n : Nat) {i head : Nat} {tmp : List UInt8}
    (hlength : tmp.length = cap' * sz) (hroom : i + n ≤ cap') :
    (copySlots sz buffer cap n i head tmp).length = cap' * sz := by
  induction n generalizing i head tmp with
  | zero => exact hlength
  | succ n ih => exact ih (length_setSlot _ hlength (by omega)) (by omega)

theorem slot_copySlots {sz cap cap' : Nat} {buffer : List UInt8} (n : Nat) {i head : Nat} {tmp : List UInt8}
    (hlength : tmp.length = cap' * sz) (hroom : i + n ≤ cap') (hhead : head < cap) (j : Nat) :
    slot sz (copySlots sz buffer cap n i head tmp) j =
      if i ≤ j ∧ j < i + n then slot sz buffer ((head + (j - i)) % cap) else slot sz tmp j := by
  induction n generalizing i head tmp with
  | zero => rw [copySlots, if_neg (by omega)]
  | succ n ih =>
    have hi : i < cap' := by omega
    rw [copySlots, ih (length_setSlot _ hlength hi) (by omega) (RingBuffer.advance_lt hhead)]
    rcases Nat.lt_trichotomy j i with hlt | rfl | hgt
    · rw [if_neg (by omega), if_neg (by omega), slot_setSlot_of_ne _ hlength hi (by omega)]
    · rw [if_neg (by omega), if_pos (by omega), slot_setSlot_self _ hlength hi, Nat.sub_self, Nat.add_zero,
        Nat.mod_eq_of_lt hhead]
    · by_cases hin : j < i + (n + 1)
      · have hshift : 1 + (j - (i + 1)) = j - i := by omega
        rw [if_pos (by omega), if_pos (by omega), RingBuffer.advance_eq_mod hhead, Nat.mod_add_mod, Nat.add_assoc, hshift]
      · rw [if_neg (by omega), if_neg (by omega), slot_setSlot_of_ne _ hlength hi (by omega)]

end ByteQueue

/-- `struct queue`. The element size is set by `queue_init` and never changes, so it is a parameter. -/
structure ByteQueue (sz : Nat) where
  cap : Nat
  head : Nat
  tail : Nat
  buffer : List UInt8
  head_lt : head < cap
  tail_lt : tail < cap
  length_eq : buffer.length = cap * sz

namespace ByteQueue

variable {sz : Nat}

def queueInit (sz : Nat) : ByteQueue sz where
  cap := 4
  head := 0
  tail := 0
  buffer := skynetMalloc (4 * sz)
  head_lt := Nat.zero_lt_succ 3
  tail_lt := Nat.zero_lt_succ 3
  length_eq := List.length_replicate

def queueEmpty (q : ByteQueue sz) : Bool := q.head = q.tail

def queuePop (q : ByteQueue sz) : Option (Element sz × ByteQueue sz) :=
  if q.head = q.tail then none
  else some (slot sz q.buffer q.head,
    { q with head := RingBuffer.advance q.cap q.head, head_lt := RingBuffer.advance_lt q.head_lt })

/-- A full block is copied before the value is stored; the slot that waits for the value is copied with the others. A failed
assertion ends the process. -/
def queuePush (q : ByteQueue sz) (value : Element sz) : Option (ByteQueue sz) :=
  let tail := RingBuffer.advance q.cap q.tail
  if q.head = tail then
    if sz > 0 then
      let cap := q.cap * 2
      let tmp := copySlots sz q.buffer q.cap q.cap 0 q.head (skynetMalloc (cap * sz))
      have hcap : q.cap < cap := by have := q.head_lt; omega
      some
        { cap
          head := 0
          tail := q.cap
          buffer := setSlot tmp (q.cap - 1) value
          head_lt := by omega
          tail_lt := hcap
          length_eq := length_setSlot value (length_copySlots _ List.length_replicate (by omega)) (by omega) }
    else none
  else
    some { q with
      tail
      buffer := setSlot q.buffer q.tail value
      tail_lt := RingBuffer.advance_lt q.tail_lt
      length_eq := length_setSlot value q.length_eq q.tail_lt }

def queueSize (q : ByteQueue sz) : Nat := if q.head > q.tail then q.tail + q.cap - q.head else q.tail - q.head

/-! ### The ring of slots -/

def ring (q : ByteQueue sz) : RingBuffer (Element sz) where
  cap := q.cap
  head := q.head
  tail := q.tail
  slot := slot sz q.buffer
  head_lt := q.head_lt
  tail_lt := q.tail_lt

/-- The elements in the queue, oldest first. -/
def elements (q : ByteQueue sz) : List (Element sz) := q.ring.contents

theorem slot_setSlot {buffer : List UInt8} {cap i : Nat} (value : Element sz) (hlength : buffer.length = cap * sz)
    (hi : i < cap) : slot sz (setSlot buffer i value) = Function.update (slot sz buffer) i value := by
  funext j
  by_cases hj : j = i
  · rw [hj, slot_setSlot_self value hlength hi, Function.update_self]
  · rw [slot_setSlot_of_ne value hlength hi hj, Function.update_of_ne hj]

theorem queuePush_of_room {q : ByteQueue sz} (value : Element sz) (hroom : q.head ≠ RingBuffer.advance q.cap q.tail) :
    ∃ q', queuePush q value = some q' ∧ q'.ring = q.ring.put value := by
  refine ⟨_, by rw [queuePush, if_neg hroom], ?_⟩
  simp only [ring, RingBuffer.put, slot_setSlot value q.length_eq q.tail_lt]

theorem queuePush_of_full {q : ByteQueue sz} (value : Element sz) (hsz : 0 < sz)
    (hfull : q.head = RingBuffer.advance q.cap q.tail) :
    ∃ q' rest, queuePush q value = some q' ∧
      q'.ring = (q.ring.put value).regrow rest (q.ring.cap * 2) (cap_put_lt q.ring value) := by
  have hcap : q.cap ≤ q.cap * 2 := by omega
  have hpos : q.cap - 1 < q.cap * 2 := by have := q.head_lt; omega
  have hlength : (skynetMalloc (q.cap * 2 * sz)).length = q.cap * 2 * sz := List.length_replicate
  have hcopy : slot sz (copySlots sz q.buffer q.cap q.cap 0 q.head (skynetMalloc (q.cap * 2 * sz))) =
      fun j => if j < q.cap then slot sz q.buffer ((q.head + j) % q.cap) else
        slot sz (skynetMalloc (q.cap * 2 * sz)) j := by
    funext j
    rw [slot_copySlots q.cap hlength (by omega) q.head_lt]
    simp only [Nat.zero_le, true_and, Nat.zero_add, Nat.sub_zero]
  have hslots : slot sz (setSlot (copySlots sz q.buffer q.cap q.cap 0 q.head (skynetMalloc (q.cap * 2 * sz))) (q.cap - 1)
      value) = ((q.ring.put value).regrow (slot sz (skynetMalloc (q.cap * 2 * sz))) (q.ring.cap * 2)
        (cap_put_lt q.ring value)).slot := by
    rw [slot_setSlot value (length_copySlots q.cap hlength (by omega)) hpos, hcopy]
    exact RingBuffer.update_last_of_full q.ring value _ hfull
  refine ⟨_, slot sz (skynetMalloc (q.cap * 2 * sz)), by rw [queuePush, if_pos hfull, if_pos hsz], ?_⟩
  simp only [ring, hslots]
  rfl

/-- `queue_push` appends, whether or not the block has to grow. -/
theorem elements_queuePush (q : ByteQueue sz) (value : Element sz) (hsz : 0 < sz) :
    ∃ q', queuePush q value = some q' ∧ q'.elements = q.elements ++ [value] := by
  by_cases hfull : q.head = RingBuffer.advance q.cap q.tail
  · obtain ⟨q', rest, hpush, hring⟩ := queuePush_of_full value hsz hfull
    refine ⟨q', hpush, ?_⟩
    rw [elements, hring, RingBuffer.contents_regrow]
    exact RingBuffer.view_put_of_full q.ring value hfull
  · obtain ⟨q', hpush, hring⟩ := queuePush_of_room value hfull
    refine ⟨q', hpush, ?_⟩
    rw [elements, hring]
    exact RingBuffer.contents_put q.ring value hfull

theorem queuePop_eq_none_of_nil {q : ByteQueue sz} (hnil : q.elements = []) : queuePop q = none := by
  rw [queuePop, if_pos]
  exact (RingBuffer.contents_eq_nil_iff q.ring).mp hnil

/-- `queue_pop` takes the oldest element. -/
theorem queuePop_of_ne_nil {q : ByteQueue sz} (hne : q.elements ≠ []) :
    ∃ value q', queuePop q = some (value, q') ∧ q.elements = value :: q'.elements := by
  have hapart : q.head ≠ q.tail := fun heq => hne ((RingBuffer.contents_eq_nil_iff q.ring).mpr heq)
  refine ⟨_, _, by rw [queuePop, if_neg hapart], ?_⟩
  exact RingBuffer.contents_eq_cons_take q.ring hapart

theorem queueSize_eq_length (q : ByteQueue sz) : queueSize q = q.elements.length :=
  (RingBuffer.length_contents q.ring).symm

theorem queueEmpty_iff_nil (q : ByteQueue sz) : queueEmpty q = true ↔ q.elements = [] := by
  rw [elements, RingBuffer.contents_eq_nil_iff]
  exact decide_eq_true_iff

/-- The queue of the elements themselves, with which the service is modelled, does what the block does. -/
theorem refines_elements {q : ByteQueue sz} {r : RingBuffer (Element sz)} (hsz : 0 < sz) (h : q.elements = r.contents) :
    (∀ value, ∃ q', queuePush q value = some q' ∧ q'.elements = (ServicePackage.queuePush r value).contents) ∧
      (queuePop q).map (fun popped => (popped.1, popped.2.elements)) =
        (ServicePackage.queuePop r).map (fun popped => (popped.1, popped.2.contents)) ∧
      queueSize q = ServicePackage.queueSize r := by
  refine ⟨fun value => ?_, ?_, ?_⟩
  · rw [contents_queuePush, ← h]
    exact elements_queuePush q value hsz
  · by_cases hnil : q.elements = []
    · rw [queuePop_eq_none_of_nil hnil, (queuePop_eq_none_iff r).mpr (h.symm.trans hnil)]
      rfl
    · obtain ⟨value, q', hpop, helements⟩ := queuePop_of_ne_nil hnil
      cases hring : ServicePackage.queuePop r with
      | none => exact absurd (h.trans ((queuePop_eq_none_iff r).mp hring)) hnil
      | some popped =>
        have hcontents := contents_of_queuePop hring
        rw [← h, helements, List.cons.injEq] at hcontents
        rw [hpop]
        simp only [Option.map_some, hcontents]
  · rw [queueSize_eq_length, h, queueSize_eq]

/-! ### Runs -/

/-- One call, with the element it hands out. -/
def call (q : ByteQueue sz) : Fifo.Call (Element sz) false → Option (Option (Element sz) × ByteQueue sz)
  | .push value => (queuePush q value).map fun q' => (none, q')
  | .pop => match queuePop q with
    | none => some (none, q)
    | some (value, q') => some (some value, q')

theorem simulates_call (hsz : 0 < sz) : Fifo.Simulates call (elements : ByteQueue sz → List (Element sz)) := by
  intro q event
  cases event with
  | push value =>
    obtain ⟨q', hpush, helements⟩ := elements_queuePush q value hsz
    refine ⟨q', ?_, helements⟩
    rw [call, hpush]
    rfl
  | pop =>
    by_cases hnil : q.elements = []
    · refine ⟨q, ?_, ?_⟩
      · simp [call, queuePop_eq_none_of_nil hnil, Fifo.out, hnil]
      · rw [Fifo.next, hnil, List.tail_nil]
    · obtain ⟨value, q', hpop, helements⟩ := queuePop_of_ne_nil hnil
      refine ⟨q', ?_, ?_⟩
      · simp [call, hpop, Fifo.out, helements]
      · rw [Fifo.next, helements, List.tail_cons]

/-- Every call of the run hands out what a first-in first-out queue does, and the queue then has its size. -/
def RunsAsFifo (sz : Nat) (calls : List (Fifo.Call (Element sz) false)) : Prop :=
  ∃ q, Fifo.trace call (queueInit sz) calls = some (Fifo.answers [] calls, q) ∧ queueSize q = (Fifo.held calls).length ∧
    (queueEmpty q = true ↔ Fifo.held calls = [])

/-- **The queues.** For every positive element size and every run, `queue_pop` returns the oldest element pushed and not yet
popped, or reports that there is none, and `queue_size` counts them. -/
theorem runsAsFifo_of_pos (sz : Nat) (hsz : 0 < sz) (calls : List (Fifo.Call (Element sz) false)) :
    RunsAsFifo sz calls := by
  have hnil : (queueInit sz).elements = [] := (RingBuffer.contents_eq_nil_iff _).mpr rfl
  obtain ⟨q, htrace, hheld⟩ := Fifo.trace_eq_of_nil (simulates_call hsz) hnil calls
  refine ⟨q, htrace, ?_, ?_⟩
  · rw [queueSize_eq_length, hheld]
  · rw [queueEmpty_iff_nil, hheld]

/-- Two-byte elements, with a block that grows after its ring has wrapped. -/
theorem runsAsFifo_wrapped_growth :
    0 < 2 ∧ RunsAsFifo 2 [.push ![1, 2], .push ![3, 4], .pop, .push ![5, 6], .push ![7, 8], .push ![9, 10], .pop, .pop] :=
  ⟨by decide, runsAsFifo_of_pos 2 (by decide) _⟩

/-- Elements without bytes: the fourth push finds the block full and fails the assertion. -/
theorem not_runsAsFifo_no_bytes : ¬ RunsAsFifo 0 [.push ![], .push ![], .push ![], .push ![]] := by
  rintro ⟨q, htrace, -⟩
  have hstopped : Fifo.trace call (queueInit 0) [.push ![], .push ![], .push ![], .push ![]] = none := rfl
  rw [hstopped] at htrace
  cases htrace

end ByteQueue

end SkynetServer.ServicePackage
