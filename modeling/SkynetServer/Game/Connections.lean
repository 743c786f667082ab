import Mathlib.Data.Finset.Card
import SkynetServer.Game.Gateserver
import SkynetServer.Lib.Run

/-!
# The connection count

`gateserver.lua` by itself: the events of the sockets, the calls of `close_client` and `forward`, and the answers of the
agents come in any order, and nothing is assumed about the service that uses it. `close_fd` of an entry with an agent
waits for the answer to `cmd_agent_close` before it removes the entry, and an error in the answer ends it there. A second
close event in the meantime finds the same entry: the agent is told to close again, and the client is counted out twice.
As long as none comes, `nclient` is the number of entries of `connection`.
-/

namespace SkynetServer.Game

open Lib

structure Gateserver where
  gate : Gate := {}
  /-- The clients that `close_client` is going to close when the logger answers. -/
  kicking : List Fd := []
  /-- The entries whose `close_fd` waits for `cmd_agent_close`. -/
  suspended : List Fd := []
  /-- The entries whose `close_fd` has ended with an error. -/
  failed : List Fd := []
  /-- The calls of `cmd_agent_close`, each with the entry for which it is made. -/
  calls : List (Fd × Handle) := []

namespace Gateserver

def closeFd (s : Gateserver) (fd : Fd) : Gateserver :=
  match s.gate.connection fd with
  | none => s
  | some c =>
    match c.agent with
    | some agent => { s with suspended := s.suspended ++ [fd], calls := s.calls ++ [(fd, agent)] }
    | none => { s with gate := s.gate.remove fd }

/-- `cmd_agent_close` is answered. -/
def answered (s : Gateserver) (i : Nat) (ok : Bool) : Option Gateserver :=
  match s.suspended[i]? with
  | some fd =>
    let s := { s with suspended := s.suspended.eraseIdx i }
    if ok then some { s with gate := s.gate.remove fd } else some { s with failed := fd :: s.failed }
  | none => none

/-- `close_client` as far as the logger. -/
def closeClient (s : Gateserver) (fd : Fd) : Gateserver :=
  if s.gate.closesClient fd then { s with kicking := s.kicking ++ [fd] } else s

/-- The logger answers `close_client`. -/
def logged (s : Gateserver) (i : Nat) : Option Gateserver :=
  match s.kicking[i]? with
  | some fd => some { s with kicking := s.kicking.eraseIdx i, gate := s.gate.socketClose fd }
  | none => none

inductive Event where
  | msgOpen (fd : Fd) (addr : String)
  | msgClose (fd : Fd)
  | msgError (fd : Fd)
  | closeClient (fd : Fd)
  | logged (i : Nat)
  | forward (fd : Fd) (agent : Handle)
  | answered (i : Nat) (ok : Bool)
deriving DecidableEq

/-- The number of a socket is never used again; apart from that every event is possible at any time. -/
def step (s : Gateserver) : Event → Option Gateserver
  | .msgOpen fd addr =>
    match s.gate.sockets fd with
    | none => some { s with gate := s.gate.msgOpen fd addr }
    | some _ => none
  | .msgClose fd => some (s.closeFd fd)
  | .msgError fd => some (s.closeFd fd)
  | .closeClient fd => some (s.closeClient fd)
  | .logged i => s.logged i
  | .forward fd agent => some { s with gate := s.gate.forward fd agent }
  | .answered i ok => s.answered i ok

end Gateserver

/-! ### The count of the tables -/

/-- `nclient` is the number of entries of `connection`, which are those of `IP`. -/
structure Gate.Counted (gate : Gate) : Prop where
  entries : ∃ keys : Finset Fd, (∀ fd, fd ∈ keys ↔ gate.connection fd ≠ none) ∧ gate.nclient = keys.card
  ip : ∀ fd, gate.ip fd ≠ none ↔ gate.connection fd ≠ none
  bound : gate.nclient ≤ gate.maxclient

namespace Gate.Counted

variable {gate : Gate}

theorem init (maxclient : Nat) : Counted { maxclient } where
  entries := ⟨∅, fun _ => by simp, rfl⟩
  ip := fun _ => by simp
  bound := Int.natCast_nonneg maxclient

theorem nonneg (h : gate.Counted) : 0 ≤ gate.nclient := by
  obtain ⟨keys, -, hcard⟩ := h.entries
  rw [hcard]
  exact Int.natCast_nonneg _

theorem socketClose (h : gate.Counted) (fd : Fd) : (gate.socketClose fd).Counted := { h with }

theorem msgOpen (h : gate.Counted) {fd : Fd} (hfd : gate.connection fd = none) (addr : String) :
    (gate.msgOpen fd addr).Counted := by
  simp only [Gate.msgOpen]
  split
  · exact { h with }
  · rename_i hroom
    obtain ⟨keys, hkeys, hcard⟩ := h.entries
    have hout : fd ∉ keys := fun hmem => (hkeys fd).mp hmem hfd
    refine { entries := ⟨insert fd keys, fun fd' => ?keys, ?card⟩
             ip := fun fd' => ?ip
             bound := ?bound }
    case keys =>
      by_cases heq : fd' = fd
      · subst heq
        simp
      · simpa [heq] using hkeys fd'
    case card =>
      change gate.nclient + 1 = _
      rw [Finset.card_insert_of_notMem hout, hcard]
      rfl
    case ip =>
      by_cases heq : fd' = fd
      · subst heq
        simp
      · simpa [heq] using h.ip fd'
    case bound =>
      change gate.nclient + 1 ≤ gate.maxclient
      change ¬ gate.nclient ≥ gate.maxclient at hroom
      omega

theorem forward (h : gate.Counted) (fd : Fd) (agent : Handle) : (gate.forward fd agent).Counted := by
  unfold Gate.forward
  split
  · rename_i c hc
    obtain ⟨keys, hkeys, hcard⟩ := h.entries
    have hsame : ∀ fd', Function.update gate.connection fd (some { c with agent := some agent }) fd' ≠ none ↔
        gate.connection fd' ≠ none := by
      intro fd'
      by_cases heq : fd' = fd
      · subst heq
        simp [hc]
      · simp [heq]
    exact ⟨⟨keys, fun fd' => (hkeys fd').trans (hsame fd').symm, hcard⟩, fun fd' => (h.ip fd').trans (hsame fd').symm,
      h.bound⟩
  · exact h

theorem remove (h : gate.Counted) {fd : Fd} (hfd : gate.connection fd ≠ none) : (gate.remove fd).Counted := by
  obtain ⟨keys, hkeys, hcard⟩ := h.entries
  have hin : fd ∈ keys := (hkeys fd).mpr hfd
  refine { entries := ⟨keys.erase fd, fun fd' => ?keys, ?card⟩
           ip := fun fd' => ?ip
           bound := ?bound }
  case keys =>
    change _ ↔ Function.update gate.connection fd none fd' ≠ none
    by_cases heq : fd' = fd
    · subst heq
      simp
    · simpa [heq] using hkeys fd'
  case card =>
    change gate.nclient - 1 = _
    have hpos : 0 < keys.card := Finset.card_pos.mpr ⟨fd, hin⟩
    rw [Finset.card_erase_of_mem hin, hcard]
    omega
  case ip =>
    change Function.update gate.ip fd none fd' ≠ none ↔ Function.update gate.connection fd none fd' ≠ none
    by_cases heq : fd' = fd
    · subst heq
      simp
    · simpa [heq] using h.ip fd'
  case bound =>
    change gate.nclient - 1 ≤ gate.maxclient
    have hbound := h.bound
    omega

end Gate.Counted

namespace Gateserver

/-! ### Steps -/

/-- The condition on the state before an event: no close event is handled for an entry whose `close_fd` waits for
`cmd_agent_close`, or has ended with an error. -/
def Apart (s : Gateserver) : Event → Prop
  | .msgClose fd => fd ∉ s.suspended ∧ fd ∉ s.failed
  | .msgError fd => fd ∉ s.suspended ∧ fd ∉ s.failed
  | _ => True

/-- What is true of the entries as long as the events are apart: `close_fd` is called once for each entry with an agent. -/
structure Inv (s : Gateserver) : Prop where
  counted : s.gate.Counted
  fresh : ∀ fd, s.gate.sockets fd = none → s.gate.connection fd = none ∧ fd ∉ s.calls.map Prod.fst
  nodup : (s.suspended ++ s.failed).Nodup
  closing : ∀ fd ∈ s.suspended ++ s.failed, fd ∈ s.calls.map Prod.fst ∧ ∃ c, s.gate.connection fd = some c ∧ c.agent ≠ none
  once : (s.calls.map Prod.fst).Nodup
  called : ∀ fd ∈ s.calls.map Prod.fst, fd ∈ s.suspended ++ s.failed ∨ s.gate.connection fd = none

theorem inv_init (maxclient : Nat) : Inv { gate := { maxclient } } where
  counted := .init maxclient
  fresh := fun _ _ => ⟨rfl, List.not_mem_nil⟩
  nodup := List.nodup_nil
  closing := fun _ h => by cases h
  once := List.nodup_nil
  called := fun _ h => by cases h

namespace Inv

variable {s : Gateserver}

theorem msgOpen (h : Inv s) {fd : Fd} (hfd : s.gate.sockets fd = none) (addr : String) :
    Inv { s with gate := s.gate.msgOpen fd addr } := by
  obtain ⟨hnone, hout⟩ := h.fresh fd hfd
  have hkeep : ∀ fd', fd' ≠ fd → (s.gate.msgOpen fd addr).connection fd' = s.gate.connection fd' := by
    intro fd' hne
    simp only [Gate.msgOpen]
    split
    · rfl
    · exact Function.update_of_ne hne _ _
  have hsockets : ∀ fd', (s.gate.msgOpen fd addr).sockets fd' = none → fd' ≠ fd ∧ s.gate.sockets fd' = none := by
    intro fd' hfd'
    have hne : fd' ≠ fd := by
      rintro rfl
      simp only [Gate.msgOpen] at hfd'
      split at hfd' <;> simp [Gate.socketClose] at hfd'
    refine ⟨hne, ?_⟩
    simp only [Gate.msgOpen] at hfd'
    split at hfd' <;> simpa [Gate.socketClose, hne] using hfd'
  refine { h with
    counted := h.counted.msgOpen hnone addr
    fresh := fun fd' hfd' => ?_
    closing := fun fd' hfd' => ?_
    called := fun fd' hfd' => ?_ }
  · obtain ⟨hne, hold⟩ := hsockets fd' hfd'
    exact ⟨(hkeep fd' hne).trans (h.fresh fd' hold).1, (h.fresh fd' hold).2⟩
  · obtain ⟨hcall, c, hc, hagent⟩ := h.closing fd' hfd'
    refine ⟨hcall, c, (hkeep fd' ?_).trans hc, hagent⟩
    rintro rfl
    cases hnone.symm.trans hc
  · refine (h.called fd' hfd').imp_right fun hold => (hkeep fd' ?_).trans hold
    rintro rfl
    exact hout hfd'

theorem remove (h : Inv s) {fd : Fd} (hfd : s.gate.connection fd ≠ none) {suspended : List Fd}
    (hnodup : (suspended ++ s.failed).Nodup)
    (hmem : ∀ fd', fd' ∈ suspended ++ s.failed ↔ fd' ∈ s.suspended ++ s.failed ∧ fd' ≠ fd) :
    Inv { s with gate := s.gate.remove fd, suspended } := by
  have hself : (s.gate.remove fd).connection fd = none := Function.update_self _ _ _
  have hkeep : ∀ fd', fd' ≠ fd → (s.gate.remove fd).connection fd' = s.gate.connection fd' :=
    fun fd' hne => Function.update_of_ne hne _ _
  have hnone : ∀ fd', s.gate.connection fd' = none → (s.gate.remove fd).connection fd' = none := by
    intro fd' hold
    by_cases heq : fd' = fd
    · exact heq ▸ hself
    · exact (hkeep fd' heq).trans hold
  refine { h with
    counted := h.counted.remove hfd
    fresh := fun fd' hfd' => ⟨hnone fd' (h.fresh fd' hfd').1, (h.fresh fd' hfd').2⟩
    nodup := hnodup
    closing := fun fd' hfd' => ?_
    called := fun fd' hfd' => ?_ }
  · obtain ⟨hold, hne⟩ := (hmem fd').mp hfd'
    obtain ⟨hcall, c, hc, hagent⟩ := h.closing fd' hold
    exact ⟨hcall, c, (hkeep fd' hne).trans hc, hagent⟩
  · by_cases heq : fd' = fd
    · exact .inr (heq ▸ hself)
    · exact (h.called fd' hfd').imp (fun hold => (hmem fd').mpr ⟨hold, heq⟩) (hnone fd')

theorem closeFd (h : Inv s) {fd : Fd} (hsuspended : fd ∉ s.suspended) (hfailed : fd ∉ s.failed) :
    Inv (s.closeFd fd) := by
  have hout : fd ∉ s.suspended ++ s.failed := by simp [hsuspended, hfailed]
  unfold Gateserver.closeFd
  split
  · exact h
  · rename_i c hc
    split
    · rename_i agent hagent
      have hnew : fd ∉ s.calls.map Prod.fst := fun hmem => by
        rcases h.called fd hmem with hmem | hnone
        · exact hout hmem
        · cases hnone.symm.trans hc
      have hcases : ∀ {fd'}, fd' ∈ s.suspended ++ [fd] ++ s.failed ↔ fd' = fd ∨ fd' ∈ s.suspended ++ s.failed := by
        intro fd'
        simp only [List.mem_append, List.mem_singleton]
        tauto
      have hcalls : (s.calls ++ [(fd, agent)]).map Prod.fst = s.calls.map Prod.fst ++ [fd] := List.map_append
      refine { h with
        fresh := fun fd' hfd' => ?fresh
        nodup := ?nodup
        closing := fun fd' hfd' => ?closing
        once := ?once
        called := fun fd' hfd' => ?called }
      case fresh =>
        obtain ⟨hnone, hcall⟩ := h.fresh fd' hfd'
        refine ⟨hnone, ?_⟩
        rw [hcalls, List.mem_append, List.mem_singleton]
        rintro (hmem | rfl)
        · exact hcall hmem
        · cases hnone.symm.trans hc
      case nodup =>
        have hperm : (s.suspended ++ [fd] ++ s.failed).Perm (fd :: (s.suspended ++ s.failed)) := by
          rw [List.append_assoc]
          exact List.perm_middle
        exact hperm.nodup_iff.mpr (List.nodup_cons.mpr ⟨hout, h.nodup⟩)
      case closing =>
        rw [hcalls, List.mem_append, List.mem_singleton]
        rcases hcases.mp hfd' with rfl | hmem
        · exact ⟨.inr rfl, c, hc, by simp [hagent]⟩
        · exact ⟨.inl (h.closing fd' hmem).1, (h.closing fd' hmem).2⟩
      case once =>
        rw [hcalls]
        exact List.nodup_append'.mpr ⟨h.once, List.nodup_singleton fd, List.disjoint_singleton.mpr hnew⟩
      case called =>
        rw [hcalls, List.mem_append, List.mem_singleton] at hfd'
        rcases hfd' with hmem | rfl
        · exact (h.called fd' hmem).imp_left fun hmem => hcases.mpr (.inr hmem)
        · exact .inl (hcases.mpr (.inl rfl))
    · refine h.remove (by simp [hc]) h.nodup fun fd' => ⟨fun hmem => ⟨hmem, ?_⟩, fun hmem => hmem.1⟩
      rintro rfl
      exact hout hmem

theorem answered (h : Inv s) {i : Nat} {ok : Bool} {s' : Gateserver} (hs' : s.answered i ok = some s') : Inv s' := by
  unfold Gateserver.answered at hs'
  split at hs'
  · rename_i fd hfd
    have hperm : (fd :: s.suspended.eraseIdx i).Perm s.suspended := by
      obtain ⟨hi, rfl⟩ := List.getElem?_eq_some_iff.mp hfd
      exact List.getElem_cons_eraseIdx_perm hi
    have hall : (fd :: (s.suspended.eraseIdx i ++ s.failed)).Perm (s.suspended ++ s.failed) := hperm.append_right _
    have hnodup := List.nodup_cons.mp (hall.nodup_iff.mpr h.nodup)
    obtain ⟨hcall, c, hc, -⟩ := h.closing fd (hall.mem_iff.mp List.mem_cons_self)
    cases ok with
    | true =>
      obtain rfl := Option.some.inj hs'
      refine h.remove (by simp [hc]) hnodup.2 fun fd' => ?_
      rw [← hall.mem_iff, List.mem_cons]
      refine ⟨fun hmem => ⟨.inr hmem, ?_⟩, fun ⟨hmem, hne⟩ => hmem.resolve_left hne⟩
      rintro rfl
      exact hnodup.1 hmem
    | false =>
      obtain rfl := Option.some.inj hs'
      have hmove : (s.suspended.eraseIdx i ++ fd :: s.failed).Perm (s.suspended ++ s.failed) :=
        List.perm_middle.trans hall
      exact { h with
        nodup := hmove.nodup_iff.mpr h.nodup
        closing := fun fd' hfd' => h.closing fd' (hmove.mem_iff.mp hfd')
        called := fun fd' hfd' => (h.called fd' hfd').imp_left hmove.mem_iff.mpr }
  · cases hs'

theorem forward (h : Inv s) (fd : Fd) (agent : Handle) : Inv { s with gate := s.gate.forward fd agent } := by
  have hsockets : (s.gate.forward fd agent).sockets = s.gate.sockets := by
    unfold Gate.forward
    split <;> rfl
  have hnone : ∀ fd', s.gate.connection fd' = none → (s.gate.forward fd agent).connection fd' = none := by
    intro fd' hold
    unfold Gate.forward
    split
    · rename_i c hc
      refine (Function.update_of_ne ?_ _ _).trans hold
      rintro rfl
      cases hold.symm.trans hc
    · exact hold
  refine { h with
    counted := h.counted.forward fd agent
    fresh := fun fd' hfd' => ?_
    closing := fun fd' hfd' => ?_
    called := fun fd' hfd' => (h.called fd' hfd').imp_right (hnone fd') }
  · rw [hsockets] at hfd'
    exact ⟨hnone fd' (h.fresh fd' hfd').1, (h.fresh fd' hfd').2⟩
  · obtain ⟨hcall, c, hc, hagent⟩ := h.closing fd' hfd'
    refine ⟨hcall, ?_⟩
    by_cases heq : fd' = fd
    · subst heq
      exact ⟨{ c with agent := some agent }, by simp [Gate.forward, hc], by simp⟩
    · refine ⟨c, ?_, hagent⟩
      change (s.gate.forward fd agent).connection fd' = some c
      unfold Gate.forward
      split
      · exact (Function.update_of_ne heq _ _).trans hc
      · exact hc

theorem logged (h : Inv s) {i : Nat} {s' : Gateserver} (hs' : s.logged i = some s') : Inv s' := by
  unfold Gateserver.logged at hs'
  split at hs'
  · rename_i fd hfd
    obtain rfl := Option.some.inj hs'
    refine { h with counted := h.counted.socketClose fd, fresh := fun fd' hfd' => h.fresh fd' ?_ }
    by_cases heq : fd' = fd
    · subst heq
      simpa [Gate.socketClose] using hfd'
    · simpa [Gate.socketClose, heq] using hfd'
  · cases hs'

theorem step (h : Inv s) {event : Event} (hapart : s.Apart event) {s' : Gateserver}
    (hs' : s.step event = some s') : Inv s' := by
  cases event with
  | msgOpen fd addr =>
    simp only [Gateserver.step] at hs'
    split at hs'
    · rename_i hfd
      obtain rfl := Option.some.inj hs'
      exact h.msgOpen hfd addr
    · cases hs'
  | msgClose fd =>
    obtain rfl := Option.some.inj hs'
    exact h.closeFd hapart.1 hapart.2
  | msgError fd =>
    obtain rfl := Option.some.inj hs'
    exact h.closeFd hapart.1 hapart.2
  | closeClient fd =>
    obtain rfl := Option.some.inj hs'
    unfold Gateserver.closeClient
    split
    · exact { h with }
    · exact h
  | logged i => exact h.logged hs'
  | forward fd agent =>
    obtain rfl := Option.some.inj hs'
    exact h.forward fd agent
  | answered i ok => exact h.answered hs'

end Inv

/-! ### Runs -/

/-- `cmd_agent_close` has been called at most once for each entry, and if no `close_fd` waits for it, then `nclient` is the
number of entries of `connection`, `IP` has the same entries, and `nclient` is within its bounds. -/
structure Exact (s : Gateserver) : Prop where
  once : (s.calls.map Prod.fst).Nodup
  count : s.suspended = [] → ∃ keys : Finset Fd, (∀ fd, fd ∈ keys ↔ s.gate.connection fd ≠ none) ∧
    (∀ fd, fd ∈ keys ↔ s.gate.ip fd ≠ none) ∧ s.gate.nclient = keys.card
  bounds : s.suspended = [] → 0 ≤ s.gate.nclient ∧ s.gate.nclient ≤ s.gate.maxclient

theorem Inv.exact {s : Gateserver} (h : Inv s) : Exact s where
  once := h.once
  count := fun _ => by
    obtain ⟨keys, hkeys, hcard⟩ := h.counted.entries
    exact ⟨keys, hkeys, fun fd => (hkeys fd).trans (h.counted.ip fd).symm, hcard⟩
  bounds := fun _ => ⟨h.counted.nonneg, h.counted.bound⟩

/-- A close event for an entry whose `close_fd` has been called: the agent is told to close again. -/
theorem Inv.not_exact {s : Gateserver} (h : Inv s) {fd : Fd} (hfd : fd ∈ s.suspended ++ s.failed) :
    ¬ Exact (s.closeFd fd) := by
  obtain ⟨hcall, c, hc, hagent⟩ := h.closing fd hfd
  obtain ⟨agent, hagent⟩ := Option.ne_none_iff_exists'.mp hagent
  intro hexact
  have honce := hexact.once
  simp only [Gateserver.closeFd, hc, hagent, List.map_append, List.map_cons, List.map_nil] at honce
  exact List.disjoint_of_nodup_append honce hcall (List.mem_singleton_self fd)

theorem Inv.exact_iff_apart {s : Gateserver} (h : Inv s) (event : Event) :
    (∀ s' ∈ s.step event, Exact s') ↔ s.Apart event := by
  refine ⟨fun hexact => ?_, fun hapart s' hs' => (h.step hapart hs').exact⟩
  have hclose : ∀ fd, Exact (s.closeFd fd) → fd ∉ s.suspended ∧ fd ∉ s.failed := fun fd hexact =>
    ⟨fun hfd => h.not_exact (List.mem_append_left _ hfd) hexact,
      fun hfd => h.not_exact (List.mem_append_right _ hfd) hexact⟩
  cases event with
  | msgClose fd => exact hclose fd (hexact _ rfl)
  | msgError fd => exact hclose fd (hexact _ rfl)
  | _ => trivial

/-- **The connection count.** Every state of a run is exact if and only if no close event of the run is handled for an
entry whose `close_fd` waits for `cmd_agent_close`, or has ended with an error. -/
theorem always_exact_iff_apart (maxclient : Nat) (events : List Event) :
    Always step Exact { gate := { maxclient } } events ↔ Along step Apart { gate := { maxclient } } events := by
  have hinit := inv_init maxclient
  rw [always_iff_along, and_iff_right hinit.exact]
  exact along_congr (fun s event h => h.exact_iff_apart event)
    (fun s event s' h hexact hs' => h.step ((h.exact_iff_apart event).mp hexact) hs') hinit

/-- The client 1 disconnects, and before its agent has closed it is kicked: the close of its socket is another event. -/
def closesTwice : List Event :=
  [.msgOpen 1 "127.0.0.1", .forward 1 0, .closeClient 1, .msgClose 1, .logged 0, .msgClose 1, .answered 0 true,
    .answered 0 true]

theorem not_exact_closes_twice :
    ¬ ∀ (maxclient : Nat) (events : List Event), Always step Exact { gate := { maxclient } } events := by
  intro hall
  have hexact := hall 2048 closesTwice _ _ List.prefix_rfl rfl
  have hnonneg := (hexact.bounds rfl).1
  revert hnonneg
  decide

end Gateserver

end SkynetServer.Game
