import SkynetServer.Lib.Fifo
import SkynetServer.Websocket.Queue

/-!
# The packet queue as a whole

`push_data`, `lpop` and `lclear` in any order, from the state in which there is no queue. What `lpop` returns is what a
first-in first-out queue of the packets returns, wherever the ring has wrapped and however often it has grown.
-/

namespace SkynetServer.Websocket

open Lib

/-- The packet buffers of a chain, as they are freed. -/
def clearList (chain : List Uncomplete) : List (List UInt8) := chain.map (·.packBuffer)

/-- The buffers freed, in order, and the queue afterwards. A head behind the tail has the tail a full turn later. -/
def lclear (L : Option Queue) : List (List UInt8) × Option Queue :=
  match L with
  | none => ([], none)
  | some q =>
    let records := (List.range hashsize).flatMap fun i => clearList (q.hash i)
    let tail := if q.ring.head > q.ring.tail then q.ring.tail + q.ring.cap else q.ring.tail
    let waiting := (List.range' q.ring.head (tail - q.ring.head)).map fun i => (q.ring.slot (i % q.ring.cap)).buffer
    (records ++ waiting, some { ring := q.ring.reset, hash := fun _ => [] })

@[simp] theorem packets_lclear (L : Option Queue) : packets (lclear L).2 = [] := by
  cases L with
  | none => rfl
  | some q => exact RingBuffer.contents_reset q.ring

theorem lclear_frees (q : Queue) :
    (lclear (some q)).1 = ((List.range hashsize).flatMap fun i => clearList (q.hash i)) ++
      (packets (some q)).map (·.buffer) := by
  have hsize : (if q.ring.head > q.ring.tail then q.ring.tail + q.ring.cap else q.ring.tail) - q.ring.head =
      q.ring.size := by
    unfold RingBuffer.size
    split <;> rfl
  simp only [lclear, hsize, packets, getQueue_some, ← RingBuffer.map_slot_range', List.map_map]
  rfl

/-- One call on the queue at index 1, with the packet it returns. -/
def callQueue (L : Option Queue) : Fifo.Call Netpack true → Option (Option Netpack × Option Queue)
  | .push np => some (none, some (pushData L np.id np.buffer np.size))
  | .pop => match lpop L with
    | none => some (none, L)
    | some (np, q) => some (some np, some q)
  | .clear => some (none, (lclear L).2)

theorem simulates_callQueue : Fifo.Simulates callQueue packets := by
  intro L call
  cases call with
  | push np => exact ⟨_, rfl, packets_pushData L np.id np.buffer np.size⟩
  | pop =>
    cases hpop : lpop L with
    | none =>
      have hnil := (lpop_eq_none_iff L).mp hpop
      refine ⟨L, ?_, ?_⟩
      · simp [callQueue, hpop, Fifo.out, hnil]
      · rw [Fifo.next, hnil, List.tail_nil]
    | some popped =>
      obtain ⟨np, q⟩ := popped
      obtain ⟨hpackets, -⟩ := lpop_some hpop
      refine ⟨some q, ?_, ?_⟩
      · simp [callQueue, hpop, Fifo.out, hpackets]
      · rw [Fifo.next, hpackets, List.tail_cons]
  | clear => exact ⟨_, rfl, packets_lclear L⟩

/-- **The packet queue.** Every `lpop` of every run returns the oldest packet pushed and not yet popped or cleared, and
nothing if there is none; the indices stay below the capacity. -/
theorem queue_fifo (calls : List (Fifo.Call Netpack true)) :
    ∃ L, Fifo.trace callQueue none calls = some (Fifo.answers [] calls, L) ∧ packets L = Fifo.held calls ∧
      ∀ q ∈ L, q.ring.head < q.ring.cap ∧ q.ring.tail < q.ring.cap := by
  obtain ⟨L, htrace, hheld⟩ := Fifo.trace_eq_of_nil simulates_callQueue packets_none calls
  exact ⟨L, htrace, hheld, fun q _ => ⟨q.ring.head_lt, q.ring.tail_lt⟩⟩

end SkynetServer.Websocket
