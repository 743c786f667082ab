import Mathlib.Tactic.Ring
import SkynetServer.Lib.Run
import SkynetServer.Lib.Table

/-!
# Unique ids

`uuid.lua` composes an id from the time, the harbor, a number of the service and a sequence number. The number comes
from a variable of the C module that all services of the process share, and that every load of the module sets back
to 0. A Lua integer is its 64 bits, as a natural number. The events of the machine are the loads, the calls of `gen`
and the timers; each carries what `os.time` reads at that moment, and the machine only takes events in the order of
these readings, a timer at least one second after it was set.
-/

namespace SkynetServer.Uuid

open Lib

/-- The variables of the Lua module in one service, and the time at which its timer was set. -/
structure Service where
  service : Option Nat := none
  timestamp : Option Nat := none
  sequence : Nat := 0
  setAt : Nat := 0
deriving DecidableEq

/-- The process: `sid` of the C module, the services that have loaded the Lua module, the clock and the ids that
`gen` has returned so far. -/
structure Process where
  sid : Nat := 0
  services : Nat → Option Service := fun _ => none
  clock : Nat := 0
  returned : List Nat := []

/-- `core.sid ()`: the number and the variable after it. -/
def lsid (sid : Nat) : Option (Nat × Nat) := if sid ≥ 0xffff then none else some (sid + 1, sid + 1)

/-- The part of an id that a service keeps. -/
def serviceWord (harbor sid : Nat) : Nat := ((harbor &&& 0x3f) <<< 25) ||| ((sid &&& 0xffff) <<< 10)

/-- `(os.time () << 31) | service`, of which 64 bits remain. -/
def timeWord (time service : Nat) : Nat := (time <<< 31) % 2 ^ 64 ||| service

/-- The first block of `gen`: `sid` and the variables after it, or the error. -/
def initService (harbor sid : Nat) (svc : Service) : Option (Nat × Nat × Service) :=
  match svc.service with
  | some word => some (sid, word, svc)
  | none =>
    match lsid sid with
    | none => none
    | some (number, sid) => some (sid, serviceWord harbor number, { svc with service := some (serviceWord harbor number) })

/-- The second block: the timestamp, set with a timer when there is none. -/
def initTimestamp (time word : Nat) (svc : Service) : Nat × Service :=
  match svc.timestamp with
  | some timestamp => (timestamp, svc)
  | none => (timeWord time word, { svc with timestamp := some (timeWord time word), sequence := 0, setAt := time })

/-- The id, unless an error ends the call; what was assigned before the error stays. -/
def gen (harbor time sid : Nat) (svc : Service) : Nat × Service × Option Nat :=
  match initService harbor sid svc with
  | none => (sid, svc, none)
  | some (sid, word, svc) =>
    let (timestamp, svc) := initTimestamp time word svc
    let svc := { svc with sequence := svc.sequence + 1 }
    if svc.sequence < 1024 then (sid, svc, some (timestamp ||| svc.sequence)) else (sid, svc, none)

inductive Event where
  | load (id : Nat)
  | gen (id : Nat)
  | fire (id : Nat)
deriving DecidableEq

/-- One event at a reading of the clock. A service loads the module once, into its own Lua state. -/
def step (harbor : Nat) (p : Process) (event : Event × Nat) : Option Process :=
  let time := event.2
  if time < p.clock then none
  else
    match event.1 with
    | .load id =>
      match p.services id with
      | some _ => none
      | none => some { p with sid := 0, services := Function.update p.services id (some {}), clock := time }
    | .gen id =>
      match p.services id with
      | none => none
      | some svc =>
        let (sid, svc, result) := gen harbor time p.sid svc
        some { p with
          sid := sid
          services := Function.update p.services id (some svc)
          clock := time
          returned := p.returned ++ result.toList }
    | .fire id =>
      match p.services id with
      | none => none
      | some svc =>
        if svc.timestamp.isSome ∧ svc.setAt + 1 ≤ time then
          some { p with
            services := Function.update p.services id (some { svc with timestamp := none })
            clock := time }
        else none

/-! ### The fields of an id -/

/-- The number of a service does not run into the harbor: the harbor is even, or the number has 15 bits. -/
def NumberFits (harbor number : Nat) : Prop := harbor % 2 = 0 ∨ number < 2 ^ 15

theorem serviceWord_eq {harbor number : Nat} (hfits : NumberFits harbor number) (hnumber : number < 2 ^ 16) :
    serviceWord harbor number = harbor % 64 * 2 ^ 25 + number * 2 ^ 10 := by
  have hharbor : harbor &&& 0x3f = harbor % 64 := Nat.and_two_pow_sub_one_eq_mod harbor 6
  have hsid : number &&& 0xffff = number := by
    rw [show (0xffff : Nat) = 2 ^ 16 - 1 by norm_num, Nat.and_two_pow_sub_one_eq_mod, Nat.mod_eq_of_lt hnumber]
  rw [serviceWord, hharbor, hsid]
  rcases hfits with heven | hlt
  · obtain ⟨k, hk⟩ : ∃ k, harbor % 64 = k * 2 := ⟨harbor % 64 / 2, by omega⟩
    have hshift : (k * 2) <<< 25 = k <<< 26 := by
      simp only [Nat.shiftLeft_eq]
      ring
    rw [hk, hshift, ← Nat.shiftLeft_add_eq_or_of_lt (by rw [Nat.shiftLeft_eq]; omega), Nat.shiftLeft_eq,
      Nat.shiftLeft_eq]
    ring
  · rw [← Nat.shiftLeft_add_eq_or_of_lt (by rw [Nat.shiftLeft_eq]; omega), Nat.shiftLeft_eq, Nat.shiftLeft_eq]

theorem serviceWord_lt {harbor number : Nat} (hfits : NumberFits harbor number) (hnumber : number < 2 ^ 16) :
    serviceWord harbor number < 2 ^ 31 := by
  rw [serviceWord_eq hfits hnumber]
  rcases hfits with heven | hlt <;> omega

theorem timeWord_eq {time word : Nat} (htime : time < 2 ^ 33) (hword : word < 2 ^ 31) :
    timeWord time word = time * 2 ^ 31 + word := by
  rw [timeWord, Nat.mod_eq_of_lt (by rw [Nat.shiftLeft_eq]; omega), ← Nat.shiftLeft_add_eq_or_of_lt hword,
    Nat.shiftLeft_eq]

theorem or_sequence {timestamp sequence : Nat} (hten : timestamp % 2 ^ 10 = 0) (hsequence : sequence < 2 ^ 10) :
    timestamp ||| sequence = timestamp + sequence := by
  obtain ⟨k, rfl⟩ : ∃ k, timestamp = k <<< 10 := by
    refine ⟨timestamp / 2 ^ 10, ?_⟩
    rw [Nat.shiftLeft_eq]
    omega
  rw [Nat.shiftLeft_add_eq_or_of_lt hsequence]

/-! ### The invariant -/

/-- The time and the sequence number of an id lie before those the service hands out next. -/
def Before (clock time sequence : Nat) (svc : Service) : Prop :=
  match svc.timestamp with
  | some _ => time < svc.setAt ∨ (time = svc.setAt ∧ sequence ≤ svc.sequence)
  | none => time < clock

/-- The services have different numbers, their timestamps are made of them, and every returned id belongs to a service
that has gone past it. -/
structure Inv (harbor : Nat) (p : Process) : Prop where
  words : ∀ id svc word, p.services id = some svc → svc.service = some word →
    ∃ number, 1 ≤ number ∧ number ≤ p.sid ∧ word = harbor % 64 * 2 ^ 25 + number * 2 ^ 10 ∧ word < 2 ^ 31
  apart : ∀ id id' svc svc' word, p.services id = some svc → p.services id' = some svc' →
    svc.service = some word → svc'.service = some word → id = id'
  stamped : ∀ id svc timestamp, p.services id = some svc → svc.timestamp = some timestamp →
    ∃ word, svc.service = some word ∧ timestamp = svc.setAt * 2 ^ 31 + word ∧ svc.setAt ≤ p.clock
  origin : ∀ v ∈ p.returned, ∃ id svc word time sequence, p.services id = some svc ∧ svc.service = some word ∧
    v = time * 2 ^ 31 + word + sequence ∧ sequence < 2 ^ 10 ∧ Before p.clock time sequence svc
  nodup : p.returned.Nodup

theorem inv_init (harbor : Nat) : Inv harbor {} where
  words := fun id svc word h => by cases h
  apart := fun id id' svc svc' word h => by cases h
  stamped := fun id svc timestamp h => by cases h
  origin := fun v h => by cases h
  nodup := List.nodup_nil

theorem Before.mono {clock clock' time sequence : Nat} {svc : Service} (h : Before clock time sequence svc)
    (hle : clock ≤ clock') : Before clock' time sequence svc := by
  unfold Before at h ⊢
  split at h <;> omega

theorem Inv.advance {harbor : Nat} {p : Process} (h : Inv harbor p) (time : Nat) (htime : p.clock ≤ time) :
    Inv harbor { p with clock := time } where
  words := h.words
  apart := h.apart
  stamped := fun id svc timestamp hsvc hstamp => by
    obtain ⟨word, hword, heq, hle⟩ := h.stamped id svc timestamp hsvc hstamp
    exact ⟨word, hword, heq, hle.trans htime⟩
  origin := fun v hv => by
    obtain ⟨id, svc, word, t, q, hsvc, hword, heq, hq, hbefore⟩ := h.origin v hv
    exact ⟨id, svc, word, t, q, hsvc, hword, heq, hq, hbefore.mono htime⟩
  nodup := h.nodup

theorem Inv.change {harbor : Nat} {p : Process} (h : Inv harbor p) {id : Nat} {svc : Service}
    (hsvc : p.services id = some svc) (svc' : Service) (hservice : svc'.service = svc.service)
    (hstamped : ∀ timestamp, svc'.timestamp = some timestamp →
      ∃ word, svc.service = some word ∧ timestamp = svc'.setAt * 2 ^ 31 + word ∧ svc'.setAt ≤ p.clock)
    (hbefore : ∀ time sequence, Before p.clock time sequence svc → Before p.clock time sequence svc') :
    Inv harbor { p with services := Function.update p.services id (some svc') } := by
  have hback : ∀ id' s', Function.update p.services id (some svc') id' = some s' →
      ∃ s, p.services id' = some s ∧ s'.service = s.service := by
    intro id' s' hs'
    rcases update_some_cases hs' with ⟨rfl, rfl⟩ | ⟨-, hs'⟩
    · exact ⟨svc, hsvc, hservice⟩
    · exact ⟨s', hs', rfl⟩
  refine ⟨fun id' s' word hs' hword => ?_, fun a b sa sb word hsa hsb ha hb => ?_, fun id' s' timestamp hs' hstamp => ?_,
    fun v hv => ?_, h.nodup⟩
  · obtain ⟨s, hs, heq⟩ := hback id' s' hs'
    exact h.words id' s word hs (heq ▸ hword)
  · obtain ⟨s, hs, heq⟩ := hback a sa hsa
    obtain ⟨s', hs', heq'⟩ := hback b sb hsb
    exact h.apart a b s s' word hs hs' (heq ▸ ha) (heq' ▸ hb)
  · rcases update_some_cases hs' with ⟨rfl, rfl⟩ | ⟨-, hs'⟩
    · obtain ⟨word, hword, hrest⟩ := hstamped timestamp hstamp
      exact ⟨word, hservice.trans hword, hrest⟩
    · exact h.stamped id' s' timestamp hs' hstamp
  · obtain ⟨id', s, word, time, sequence, hs, hword, heq, hq, hbefore'⟩ := h.origin v hv
    by_cases hid : id' = id
    · subst hid
      obtain rfl := Option.some.inj (hs.symm.trans hsvc)
      exact ⟨id', svc', word, time, sequence, Function.update_self _ _ _, hservice.trans hword, heq, hq,
        hbefore _ _ hbefore'⟩
    · exact ⟨id', s, word, time, sequence, (Function.update_of_ne hid _ _).trans hs, hword, heq, hq, hbefore'⟩

theorem Inv.number {harbor : Nat} {p : Process} (h : Inv harbor p) {id : Nat} {svc : Service}
    (hsvc : p.services id = some svc) (hnone : svc.service = none) (hsid : p.sid < 0xffff)
    (hfits : NumberFits harbor (p.sid + 1)) :
    Inv harbor { p with
      sid := p.sid + 1
      services := Function.update p.services id
        (some { svc with service := some (serviceWord harbor (p.sid + 1)) }) } := by
  have hword := serviceWord_eq hfits (by omega)
  have hlt := serviceWord_lt hfits (by omega)
  have hother : ∀ id' s' word, p.services id' = some s' → s'.service = some word →
      word ≠ serviceWord harbor (p.sid + 1) := by
    intro id' s' word hs' hw heq
    obtain ⟨number, -, hle, hnumber, -⟩ := h.words id' s' word hs' hw
    omega
  refine ⟨fun id' s' word hs' hw => ?_, fun a b sa sb word hsa hsb ha hb => ?_, fun id' s' timestamp hs' hstamp => ?_,
    fun v hv => ?_, h.nodup⟩
  · rcases update_some_cases hs' with ⟨rfl, rfl⟩ | ⟨-, hs'⟩
    · obtain rfl := Option.some.inj hw
      exact ⟨p.sid + 1, by omega, le_rfl, hword, hlt⟩
    · obtain ⟨number, hone, hle, hnumber, hlt'⟩ := h.words id' s' word hs' hw
      exact ⟨number, hone, by dsimp only; omega, hnumber, hlt'⟩
  · rcases update_some_cases hsa with ⟨hai, rfl⟩ | ⟨-, hsa'⟩ <;>
      rcases update_some_cases hsb with ⟨hbi, rfl⟩ | ⟨-, hsb'⟩
    · exact hai.trans hbi.symm
    · exact absurd (Option.some.inj ha).symm (hother b sb word hsb' hb)
    · exact absurd (Option.some.inj hb).symm (hother a sa word hsa' ha)
    · exact h.apart a b sa sb word hsa' hsb' ha hb
  · rcases update_some_cases hs' with ⟨rfl, rfl⟩ | ⟨-, hs'⟩
    · obtain ⟨word, hw, -⟩ := h.stamped id' svc timestamp hsvc hstamp
      rw [hnone] at hw
      cases hw
    · exact h.stamped id' s' timestamp hs' hstamp
  · obtain ⟨id', s, word, time, sequence, hs, hw, hrest⟩ := h.origin v hv
    have hne : id' ≠ id := by
      rintro rfl
      obtain rfl := Option.some.inj (hs.symm.trans hsvc)
      rw [hnone] at hw
      cases hw
    exact ⟨id', s, word, time, sequence, (Function.update_of_ne hne _ _).trans hs, hw, hrest⟩

/-- The next sequence number under the current timestamp makes an id that was never returned. -/
theorem Inv.notMem_returned {harbor : Nat} {p : Process} (h : Inv harbor p) {id : Nat} {svc : Service} {timestamp : Nat}
    (hsvc : p.services id = some svc) (hstamp : svc.timestamp = some timestamp) (hlt : svc.sequence + 1 < 2 ^ 10) :
    timestamp ||| (svc.sequence + 1) = timestamp + (svc.sequence + 1) ∧
      timestamp + (svc.sequence + 1) ∉ p.returned := by
  obtain ⟨word, hword, rfl, -⟩ := h.stamped id svc timestamp hsvc hstamp
  obtain ⟨number, -, -, hnumber, hsmall⟩ := h.words id svc word hsvc hword
  refine ⟨or_sequence (by omega) hlt, fun hmem => ?_⟩
  obtain ⟨id', svc', word', time, sequence, hsvc', hword', heq, hsequence, hbefore⟩ := h.origin _ hmem
  obtain ⟨number', -, -, hnumber', hsmall'⟩ := h.words id' svc' word' hsvc' hword'
  -- equal ids agree field by field
  have htime : time = svc.setAt := by omega
  have hsame : word' = word := by omega
  subst hsame
  obtain rfl := h.apart id id' svc svc' word' hsvc hsvc' hword hword'
  obtain rfl := Option.some.inj (hsvc.symm.trans hsvc')
  simp only [Before, hstamp] at hbefore
  omega

/-! ### Steps and runs -/

/-- The condition on the state before an event: the module is loaded before any number has been handed out; a number is
handed out only while it stays clear of the harbor; and the clock fits into its 33 bits. -/
def Ok (harbor : Nat) (p : Process) (event : Event × Nat) : Prop :=
  match event.1 with
  | .load _ => p.sid = 0
  | .gen id => ∀ svc, p.services id = some svc →
    (svc.service = none → NumberFits harbor (p.sid + 1)) ∧ (svc.timestamp = none → event.2 < 2 ^ 33)
  | .fire _ => True

theorem inv_initService {harbor : Nat} {p : Process} (h : Inv harbor p) {id : Nat} {svc svc' : Service} {sid word : Nat}
    (hsvc : p.services id = some svc) (hok : svc.service = none → NumberFits harbor (p.sid + 1))
    (hinit : initService harbor p.sid svc = some (sid, word, svc')) :
    Inv harbor { p with sid := sid, services := Function.update p.services id (some svc') } ∧
      svc'.service = some word ∧ svc'.timestamp = svc.timestamp := by
  unfold initService at hinit
  cases hservice : svc.service with
  | some word' =>
    simp only [hservice] at hinit
    obtain ⟨rfl, rfl, rfl⟩ : p.sid = sid ∧ word' = word ∧ svc = svc' := by simpa using hinit
    rw [← hsvc, Function.update_eq_self]
    exact ⟨h, hservice, rfl⟩
  | none =>
    simp only [hservice, lsid] at hinit
    by_cases hsid : p.sid ≥ 0xffff
    · simp [hsid] at hinit
    · rw [if_neg hsid] at hinit
      obtain ⟨rfl, rfl, rfl⟩ : p.sid + 1 = sid ∧ serviceWord harbor (p.sid + 1) = word ∧
          { svc with service := some (serviceWord harbor (p.sid + 1)) } = svc' := by simpa using hinit
      exact ⟨h.number hsvc hservice (by omega) (hok hservice), rfl, rfl⟩

theorem inv_initTimestamp {harbor : Nat} {p : Process} (h : Inv harbor p) {id time word : Nat} {svc : Service}
    (hsvc : p.services id = some svc) (hword : svc.service = some word)
    (htime : svc.timestamp = none → time < 2 ^ 33) (hclock : p.clock = time) :
    Inv harbor { p with services := Function.update p.services id (some (initTimestamp time word svc).2) } ∧
      (initTimestamp time word svc).2.timestamp = some (initTimestamp time word svc).1 := by
  unfold initTimestamp
  cases hstamp : svc.timestamp with
  | some timestamp =>
    simp only [hstamp]
    rw [← hsvc, Function.update_eq_self]
    exact ⟨h, trivial⟩
  | none =>
    obtain ⟨number, -, -, -, hlt⟩ := h.words id svc word hsvc hword
    refine ⟨h.change hsvc _ rfl (fun timestamp heq => ?_) fun t q hbefore => ?_, rfl⟩
    · refine ⟨word, hword, ?_, hclock.ge⟩
      rw [← Option.some.inj heq, timeWord_eq (htime hstamp) hlt]
    · simp only [Before, hstamp] at hbefore ⊢
      omega

/-- The end of `gen`: the sequence number, and the id unless the assertion fails. -/
theorem inv_sequence {harbor : Nat} {p : Process} (h : Inv harbor p) {id timestamp : Nat} {svc : Service}
    (hsvc : p.services id = some svc) (hstamp : svc.timestamp = some timestamp) :
    Inv harbor { p with
      services := Function.update p.services id (some { svc with sequence := svc.sequence + 1 })
      returned := p.returned ++
        (if svc.sequence + 1 < 1024 then some (timestamp ||| (svc.sequence + 1)) else none).toList } := by
  have hchange := h.change hsvc { svc with sequence := svc.sequence + 1 } rfl
    (fun timestamp' heq => h.stamped id svc timestamp' hsvc heq) fun t q hbefore => by
      simp only [Before, hstamp] at hbefore ⊢
      omega
  by_cases hlt : svc.sequence + 1 < 1024
  · rw [if_pos hlt]
    obtain ⟨hor, hnotMem⟩ := h.notMem_returned hsvc hstamp hlt
    rw [hor]
    refine ⟨hchange.words, hchange.apart, hchange.stamped, fun v hv => ?_, ?_⟩
    · rcases List.mem_append.mp hv with hv | hv
      · exact hchange.origin v hv
      · obtain ⟨word, hword, rfl, -⟩ := h.stamped id svc timestamp hsvc hstamp
        obtain rfl : v = svc.setAt * 2 ^ 31 + word + (svc.sequence + 1) := by simpa using hv
        refine ⟨id, _, word, svc.setAt, svc.sequence + 1, Function.update_self _ _ _, hword, rfl, hlt, ?_⟩
        simp only [Before, hstamp]
        exact .inr ⟨trivial, le_rfl⟩
    · exact List.nodup_append'.mpr ⟨h.nodup, by simp, by simpa using hnotMem⟩
  · rw [if_neg hlt, Option.toList_none, List.append_nil]
    exact hchange

theorem inv_step {harbor : Nat} (p : Process) (event : Event × Nat) (p' : Process) (h : Inv harbor p)
    (hok : Ok harbor p event) (hstep : step harbor p event = some p') : Inv harbor p' := by
  obtain ⟨event, time⟩ := event
  simp only [step] at hstep
  split at hstep
  · cases hstep
  rename_i hclock
  have hadvance := h.advance time (by omega)
  cases event with
  | load id =>
    cases hsvc : p.services id with
    | some svc => simp [hsvc] at hstep
    | none =>
      simp only [hsvc, Option.some.injEq] at hstep
      subst hstep
      have hzero : p.sid = 0 := hok
      -- with no number handed out, no service has one and nothing has been returned
      have hnumbers : ∀ id' svc word, p.services id' = some svc → svc.service ≠ some word := by
        intro id' svc word hsvc' hword
        obtain ⟨number, hone, hle, -⟩ := h.words id' svc word hsvc' hword
        omega
      have hnew : ∀ id' svc, Function.update p.services id (some ({} : Service)) id' = some svc →
          svc.service = none ∧ (svc = {} ∨ p.services id' = some svc) := by
        intro id' svc hsvc'
        rcases update_some_cases hsvc' with ⟨-, rfl⟩ | ⟨-, hsvc'⟩
        · exact ⟨rfl, .inl rfl⟩
        · exact ⟨Option.eq_none_iff_forall_ne_some.mpr (hnumbers id' svc · hsvc'), .inr hsvc'⟩
      refine ⟨fun id' svc word hsvc' hword => ?_, fun a b sa sb word hsa _ ha => ?_,
        fun id' svc timestamp hsvc' hstamp => ?_, fun v hv => ?_, h.nodup⟩
      · rw [(hnew id' svc hsvc').1] at hword
        cases hword
      · rw [(hnew a sa hsa).1] at ha
        cases ha
      · rcases (hnew id' svc hsvc').2 with rfl | hsvc'
        · cases hstamp
        · exact hadvance.stamped id' svc timestamp hsvc' hstamp
      · obtain ⟨id', svc, word, _, _, hsvc', hword, -⟩ := h.origin v hv
        exact absurd hword (hnumbers id' svc word hsvc')
  | gen id =>
    cases hsvc : p.services id with
    | none => simp [hsvc] at hstep
    | some svc =>
      obtain ⟨hfits, htime⟩ := hok svc hsvc
      simp only [hsvc, gen] at hstep
      cases hinit : initService harbor p.sid svc with
      | none =>
        simp only [hinit, Option.toList_none, List.append_nil, Option.some.injEq] at hstep
        subst hstep
        rw [← hsvc, Function.update_eq_self]
        exact hadvance
      | some result =>
        obtain ⟨sid, word, svc₁⟩ := result
        obtain ⟨h₁, hword, hstamp⟩ := inv_initService hadvance hsvc hfits hinit
        obtain ⟨h₂, hstamp₂⟩ := inv_initTimestamp h₁ (Function.update_self _ _ _) hword (hstamp ▸ htime) rfl
        have h₃ := inv_sequence h₂ (Function.update_self _ _ _) hstamp₂
        simp only [Function.update_idem] at h₃
        simp only [hinit] at hstep
        split at hstep <;> rename_i hlt <;>
          simp only [hlt, if_true, if_false, Option.some.injEq] at h₃ hstep <;> subst hstep <;> exact h₃
  | fire id =>
    cases hsvc : p.services id with
    | none => simp [hsvc] at hstep
    | some svc =>
      simp only [hsvc] at hstep
      split at hstep
      · rename_i hdue
        obtain rfl := Option.some.inj hstep
        obtain ⟨timestamp, hstamp⟩ := Option.isSome_iff_exists.mp hdue.1
        refine hadvance.change hsvc _ rfl (fun timestamp' heq => by cases heq) fun t q hbefore => ?_
        -- the clock has passed the second of the ids handed out under the timestamp
        simp only [Before, hstamp] at hbefore ⊢
        omega
      · cases hstep

/-- **Unique ids.** In every run in which the module is loaded before the first number is handed out, the numbers stay
clear of the harbor and the clock stays below `2 ^ 33`, no two calls of `gen` return the same id. -/
theorem returned_nodup (harbor : Nat) (events : List (Event × Nat)) (p : Process)
    (hok : Along (step harbor) (Ok harbor) {} events) (hrun : run (step harbor) {} events = some p) :
    p.returned.Nodup :=
  (run_invariant inv_step (inv_init harbor) hok hrun).nodup

/-- Two services, both loaded before the first id; the second gets its number in between two ids of the first. -/
theorem returned_nodup_two_services :
    ∃ p, run (step 1) {} [(.load 1, 1000), (.load 2, 1000), (.gen 1, 1000), (.gen 2, 1000), (.fire 1, 1001),
      (.gen 1, 1001)] = some p ∧ p.returned.length = 3 ∧ p.returned.Nodup := by
  refine ⟨_, rfl, rfl, returned_nodup 1 [(.load 1, 1000), (.load 2, 1000), (.gen 1, 1000), (.gen 2, 1000),
    (.fire 1, 1001), (.gen 1, 1001)] _ ?_ rfl⟩
  refine along_cons rfl fun p₁ h₁ => ?_
  obtain rfl := Option.some.inj h₁
  refine along_cons rfl fun p₂ h₂ => ?_
  obtain rfl := Option.some.inj h₂
  refine along_cons ?_ fun p₃ h₃ => ?_
  · rintro svc hsvc
    obtain rfl := Option.some.inj hsvc
    exact ⟨fun _ => .inr (by decide), fun _ => by decide⟩
  obtain rfl := Option.some.inj h₃
  refine along_cons ?_ fun p₄ h₄ => ?_
  · rintro svc hsvc
    obtain rfl := Option.some.inj hsvc
    exact ⟨fun _ => .inr (by decide), fun _ => by decide⟩
  obtain rfl := Option.some.inj h₄
  refine along_cons trivial fun p₅ h₅ => ?_
  obtain rfl := Option.some.inj h₅
  refine along_cons ?_ fun p₆ _ => along_nil _ _ _
  rintro svc hsvc
  obtain rfl := Option.some.inj hsvc
  exact ⟨fun h => absurd h (by simp), fun _ => by decide⟩

/-- A service that starts later makes its first id in the second of another one's: both have the number 1. -/
theorem not_returned_nodup_late_start :
    ¬ ∀ (harbor : Nat) (events : List (Event × Nat)) (p : Process), run (step harbor) {} events = some p →
      p.returned.Nodup := by
  intro hall
  have hreturned : (run (step 1) {} [(.load 1, 1000), (.gen 1, 1000), (.load 2, 1000), (.gen 2, 1000)]).map
      (·.returned) = some [timeWord 1000 (serviceWord 1 1) ||| 1, timeWord 1000 (serviceWord 1 1) ||| 1] := rfl
  obtain ⟨p, hrun, heq⟩ := Option.map_eq_some_iff.mp hreturned
  have hnodup := hall 1 _ p hrun
  rw [heq] at hnodup
  simp at hnodup

/-! ### Taking an id apart -/

/-- What an id is made of. -/
structure Fields where
  time : Nat
  harbor : Nat
  sid : Nat
  sequence : Nat
deriving DecidableEq

/-- `timestamp | sequence`, with the two words that `gen` keeps written out. -/
def compose (x : Fields) : Nat := timeWord x.time (serviceWord x.harbor x.sid) ||| x.sequence

/-- The fields, in the order in which `uuid.split` returns them. -/
def split (id : Nat) : Fields where
  time := id >>> 31
  harbor := (id &&& 0x7fffffff) >>> 25
  sid := (id &&& 0x1ffffff) >>> 10
  sequence := id &&& 0x3ff

/-- The fields that `gen` can put together: a time of 33 bits, a harbor of six, a number that `core.sid` returns and a
sequence number that the assertion lets through. -/
structure Admitted (x : Fields) : Prop where
  time : x.time < 2 ^ 33
  harbor : x.harbor < 64
  sid : ∃ sid, lsid sid = some (x.sid, x.sid)
  sequence : x.sequence < 1024

/-- The id of a call is composed of the time at which the timestamp was set, of the number that the service got and of
the sequence number of the call. -/
theorem gen_eq_compose {harbor number time now sid : Nat} {svc : Service}
    (hservice : svc.service = some (serviceWord harbor number))
    (hstamp : svc.timestamp = some (timeWord time (serviceWord harbor number))) (hsequence : svc.sequence + 1 < 1024) :
    (gen harbor now sid svc).2.2 = some (compose ⟨time, harbor, number, svc.sequence + 1⟩) := by
  simp only [gen, initService, hservice, initTimestamp, hstamp, if_pos hsequence]
  rfl

theorem gen_eq_compose_first {harbor number time sid : Nat} {svc : Service} (hservice : svc.service = none)
    (hstamp : svc.timestamp = none) (hsid : lsid sid = some (number, number)) :
    (gen harbor time sid svc).2.2 = some (compose ⟨time, harbor, number, 1⟩) := by
  simp only [gen, initService, hservice, hsid, initTimestamp, hstamp]
  rfl

theorem Admitted.sid_lt {x : Fields} (h : Admitted x) : x.sid < 2 ^ 16 := by
  obtain ⟨sid, hsid⟩ := h.sid
  unfold lsid at hsid
  split at hsid
  · cases hsid
  · simp only [Option.some.injEq, Prod.mk.injEq] at hsid
    omega

theorem split_eq (id : Nat) :
    split id = ⟨id / 2 ^ 31, id % 2 ^ 31 / 2 ^ 25, id % 2 ^ 25 / 2 ^ 10, id % 2 ^ 10⟩ := by
  have h31 : (0x7fffffff : Nat) = 2 ^ 31 - 1 := rfl
  have h25 : (0x1ffffff : Nat) = 2 ^ 25 - 1 := rfl
  have h10 : (0x3ff : Nat) = 2 ^ 10 - 1 := rfl
  simp only [split, h31, h25, h10, Nat.and_two_pow_sub_one_eq_mod, Nat.shiftRight_eq_div_pow]

/-- The number that `split` finds has the 15 bits that are left for it. -/
theorem sid_split_lt (id : Nat) : (split id).sid < 2 ^ 15 := by
  rw [split_eq]
  change id % 2 ^ 25 / 2 ^ 10 < 2 ^ 15
  omega

theorem compose_eq {x : Fields} (h : Admitted x) (hsid : x.sid < 2 ^ 15) :
    compose x = x.time * 2 ^ 31 + (x.harbor * 2 ^ 25 + x.sid * 2 ^ 10) + x.sequence := by
  have htime := h.time
  have hharbor := h.harbor
  have hsequence := h.sequence
  have hword : serviceWord x.harbor x.sid = _ := serviceWord_eq (.inr hsid) h.sid_lt
  rw [Nat.mod_eq_of_lt hharbor] at hword
  rw [compose, timeWord_eq htime (serviceWord_lt (.inr hsid) h.sid_lt), hword, or_sequence (by omega) (by omega)]

theorem split_compose {x : Fields} (h : Admitted x) (hsid : x.sid < 2 ^ 15) : split (compose x) = x := by
  have htime := h.time
  have hharbor := h.harbor
  have hsequence := h.sequence
  rw [split_eq, compose_eq h hsid]
  obtain ⟨time, harbor, sid, sequence⟩ := x
  simp only [Fields.mk.injEq] at htime hharbor hsid hsequence ⊢
  omega

/-- **Splitting an id.** For any two ids that `gen` can compose: both are taken apart into what they were made of, and are
different if that is, exactly when the number of the service has 15 bits in both. -/
theorem split_compose_iff_fifteen_bits (x y : Fields) (hx : Admitted x) (hy : Admitted y) :
    (split (compose x) = x ∧ split (compose y) = y ∧ (x ≠ y → compose x ≠ compose y)) ↔
      x.sid < 2 ^ 15 ∧ y.sid < 2 ^ 15 := by
  constructor
  · rintro ⟨hsplit, hsplit', -⟩
    exact ⟨hsplit ▸ sid_split_lt (compose x), hsplit' ▸ sid_split_lt (compose y)⟩
  · rintro ⟨hsid, hsid'⟩
    refine ⟨split_compose hx hsid, split_compose hy hsid', fun hne heq => hne ?_⟩
    rw [← split_compose hx hsid, heq, split_compose hy hsid']

/-- The first two services of the first harbor, in the same second. -/
theorem split_compose_iff_fifteen_bits_two_services :
    split (compose ⟨1000, 1, 1, 1⟩) = ⟨1000, 1, 1, 1⟩ ∧ split (compose ⟨1000, 1, 2, 1⟩) = ⟨1000, 1, 2, 1⟩ ∧
      ((⟨1000, 1, 1, 1⟩ : Fields) ≠ ⟨1000, 1, 2, 1⟩ → compose ⟨1000, 1, 1, 1⟩ ≠ compose ⟨1000, 1, 2, 1⟩) :=
  (split_compose_iff_fifteen_bits ⟨1000, 1, 1, 1⟩ ⟨1000, 1, 2, 1⟩ ⟨by decide, by decide, ⟨0, rfl⟩, by decide⟩
    ⟨by decide, by decide, ⟨1, rfl⟩, by decide⟩).mpr ⟨by decide, by decide⟩

/-- The number `0x8001` runs into the harbor, and comes back as `1`. -/
theorem not_split_compose_sixteenth_bit :
    ¬ ∀ x y : Fields, Admitted x → Admitted y →
      split (compose x) = x ∧ split (compose y) = y ∧ (x ≠ y → compose x ≠ compose y) := by
  intro hall
  have hadmitted : Admitted ⟨1000, 1, 0x8001, 1⟩ := ⟨by decide, by decide, ⟨0x8000, rfl⟩, by decide⟩
  have hsplit := (hall _ _ hadmitted hadmitted).1
  exact absurd hsplit (by decide)

end SkynetServer.Uuid
