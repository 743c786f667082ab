import Mathlib.Data.List.Count
import Mathlib.Data.List.Nodup
import SkynetServer.Lib.Run

/-!
# Login sessions

`login_server.lua` numbers the sessions and keeps each of them in one of the slaves of `login_slave.lua`, the one with
the number of the session modulo the number of slaves. The server and its slaves are services: a call of the server to a
slave is a message, the answer is another one, and messages between the server and a slave arrive in the order in which
they were sent. A slave also has a timer for each session it has saved. `log` is not a field of the slave but the record
of what it has done; the table `saved_session` is what the record says it is, and what the server has returned is a part
of the records in their order. That is enough to read off that a session is accepted once and for its owner only.
-/

namespace SkynetServer.Login

open Lib

variable {Id Token : Type}

/-- An entry of `saved_session`; the token is taken out when it has been verified. -/
structure Saved (Id Token : Type) where
  id : Id
  token : Option Token
deriving DecidableEq

/-- A message to a slave. A token that is verified is there; the one that is saved need not be. -/
inductive Request (Id Token : Type) where
  | cmdSlaveSaveSession (session : Int) (id : Id) (token : Option Token)
  | cmdSlaveVerify (session : Int) (secret : Token)
deriving DecidableEq

/-- The answer of a slave, which the server returns to its caller, with the arguments of the call. An error in
`cmd_slave_verify` is caught, and the answer is empty. -/
inductive Answer (Id Token : Type) where
  | saved (session : Int) (id : Id) (token : Option Token)
  | verified (session : Int) (secret : Token) (id : Option Id)
deriving DecidableEq

/-- What a slave does. -/
inductive Entry (Id Token : Type) where
  | answer (a : Answer Id Token)
  | expired (session : Int)
deriving DecidableEq

def Request.session : Request Id Token → Int
  | .cmdSlaveSaveSession session _ _ => session
  | .cmdSlaveVerify session _ => session

def Answer.session : Answer Id Token → Int
  | .saved session _ _ => session
  | .verified session _ _ => session

def Entry.session : Entry Id Token → Int
  | .answer a => a.session
  | .expired session => session

def Entry.answer? : Entry Id Token → Option (Answer Id Token)
  | .answer a => some a
  | .expired _ => none

/-- The answers of a record. -/
def answers (log : List (Entry Id Token)) : List (Answer Id Token) := log.filterMap Entry.answer?

structure Slave (Id Token : Type) where
  savedSession : Int → Option (Saved Id Token) := fun _ => none
  timers : List Int := []
  inbox : List (Request Id Token) := []
  outbox : List (Answer Id Token) := []
  log : List (Entry Id Token) := []

structure Server (Id Token : Type) where
  sessionId : Int := 1
  slave : Nat → Slave Id Token := fun _ => {}
  /-- What calls of the server have returned. -/
  returned : List (Answer Id Token) := []

section Code

variable [DecidableEq Token]

def cmdSlaveVerify (savedSession : Int → Option (Saved Id Token)) (session : Int) (secret : Token) :
    (Int → Option (Saved Id Token)) × Option Id :=
  match savedSession session with
  | some t =>
    if some secret = t.token then (Function.update savedSession session (some { t with token := none }), some t.id)
    else (savedSession, none)
  | none => (savedSession, none)

def Slave.answer (x : Slave Id Token) (a : Answer Id Token) : Slave Id Token :=
  { x with outbox := x.outbox ++ [a], log := x.log ++ [.answer a] }

/-- The next message. -/
def Slave.handle (x : Slave Id Token) : Option (Slave Id Token) :=
  match x.inbox with
  | [] => none
  | .cmdSlaveSaveSession session id token :: inbox =>
    some ({ x with
      inbox
      savedSession := Function.update x.savedSession session (some ⟨id, token⟩)
      timers := x.timers ++ [session] }.answer (.saved session id token))
  | .cmdSlaveVerify session secret :: inbox =>
    let verified := cmdSlaveVerify x.savedSession session secret
    some ({ x with inbox, savedSession := verified.1 }.answer (.verified session secret verified.2))

/-- The timer of a session. -/
def Slave.expire (x : Slave Id Token) (i : Nat) : Option (Slave Id Token) :=
  match x.timers[i]? with
  | some session =>
    some { x with
      timers := x.timers.eraseIdx i
      savedSession := Function.update x.savedSession session none
      log := x.log ++ [.expired session] }
  | none => none

/-- `slave[(session % nslave) + 1]`, counted from zero. -/
def route (nslave : Nat) (session : Int) : Nat := (session % nslave).toNat

def Server.setSlave (s : Server Id Token) (k : Nat) (x : Slave Id Token) : Server Id Token :=
  { s with slave := Function.update s.slave k x }

def Server.call (s : Server Id Token) (k : Nat) (r : Request Id Token) : Server Id Token :=
  s.setSlave k { s.slave k with inbox := (s.slave k).inbox ++ [r] }

inductive Event (Id Token : Type) where
  | cmdServerSaveSession (id : Id) (token : Option Token)
  | cmdServerVerify (session : Int) (token : Token)
  | handle (k : Nat)
  | expire (k : Nat) (i : Nat)
  | answer (k : Nat)
deriving DecidableEq

def step (nslave : Nat) (s : Server Id Token) : Event Id Token → Option (Server Id Token)
  | .cmdServerSaveSession id token =>
    some ({ s with sessionId := s.sessionId + 1 }.call (route nslave s.sessionId)
      (.cmdSlaveSaveSession s.sessionId id token))
  | .cmdServerVerify session token => some (s.call (route nslave session) (.cmdSlaveVerify session token))
  | .handle k => (s.slave k).handle.map (s.setSlave k)
  | .expire k i => ((s.slave k).expire i).map (s.setSlave k)
  | .answer k =>
    match (s.slave k).outbox with
    | a :: outbox => some { s.setSlave k { s.slave k with outbox } with returned := s.returned ++ [a] }
    | [] => none

end Code

/-! ### The record of a slave -/

/-- What an entry makes of `saved_session`. -/
def Entry.apply (table : Int → Option (Saved Id Token)) : Entry Id Token → Int → Option (Saved Id Token)
  | .answer (.saved session id token) => Function.update table session (some ⟨id, token⟩)
  | .answer (.verified session _ (some _)) =>
    Function.update table session ((table session).map fun t => { t with token := none })
  | .answer (.verified _ _ none) => table
  | .expired session => Function.update table session none

def replay (log : List (Entry Id Token)) : Int → Option (Saved Id Token) := log.foldl Entry.apply fun _ => none

theorem replay_snoc (log : List (Entry Id Token)) (e : Entry Id Token) :
    replay (log ++ [e]) = Entry.apply (replay log) e := by
  simp [replay, List.foldl_append]

/-- A session that can be verified has been saved, and since then it has neither expired nor been accepted. -/
theorem saved_of_replay {log : List (Entry Id Token)} {session : Int} {id : Id} {secret : Token}
    (h : replay log session = some ⟨id, some secret⟩) :
    ∃ before after, log = before ++ .answer (.saved session id (some secret)) :: after ∧ .expired session ∉ after ∧
      ∀ secret' id', .answer (.verified session secret' (some id')) ∉ after := by
  induction log using List.reverseRecOn with
  | nil => cases h
  | append_singleton log e ih =>
    rw [replay_snoc] at h
    have hkeep : replay log session = some ⟨id, some secret⟩ → .expired session ≠ e →
        (∀ secret' id', .answer (.verified session secret' (some id')) ≠ e) →
        ∃ before after, log ++ [e] = before ++ .answer (.saved session id (some secret)) :: after ∧
          .expired session ∉ after ∧ ∀ secret' id', .answer (.verified session secret' (some id')) ∉ after := by
      intro hlog hexpired hverified
      obtain ⟨before, after, rfl, hnone, hnever⟩ := ih hlog
      refine ⟨before, after ++ [e], by simp, ?_, fun secret' id' => ?_⟩
      · simp [hnone, hexpired]
      · simp [hnever secret' id', hverified secret' id']
    cases e with
    | answer a =>
      cases a with
      | saved session' id' token' =>
        by_cases heq : session = session'
        · subst heq
          simp only [Entry.apply, Function.update_self, Option.some.injEq, Saved.mk.injEq] at h
          obtain ⟨rfl, rfl⟩ := h
          exact ⟨log, [], rfl, by simp, by simp⟩
        · simp only [Entry.apply, Function.update_of_ne heq] at h
          exact hkeep h (by simp) (by simp)
      | verified session' secret' id' =>
        cases id' with
        | none => exact hkeep h (by simp) (by simp)
        | some id' =>
          by_cases heq : session = session'
          · subst heq
            simp only [Entry.apply, Function.update_self, Option.map_eq_some_iff] at h
            obtain ⟨t, -, ht⟩ := h
            cases ht
          · simp only [Entry.apply, Function.update_of_ne heq] at h
            exact hkeep h (by simp) (by simp [heq])
    | expired session' =>
      by_cases heq : session = session'
      · subst heq
        simp [Entry.apply] at h
      · simp only [Entry.apply, Function.update_of_ne heq] at h
        exact hkeep h (by simp [heq]) (by simp)

def Request.saves (session : Int) : Request Id Token → Bool
  | .cmdSlaveSaveSession session' _ _ => session' = session
  | .cmdSlaveVerify _ _ => false

def Answer.saves (session : Int) : Answer Id Token → Bool
  | .saved session' _ _ => session' = session
  | .verified _ _ _ => false

/-- The saves of a session that a slave has made or is asked for. -/
def Slave.saves (x : Slave Id Token) (session : Int) : Nat :=
  x.inbox.countP (Request.saves session) + (answers x.log).countP (Answer.saves session)

/-- What is true of the slave `k` when `returned` are its answers that the server has returned. -/
structure SlaveOk (nslave : Nat) (sessionId : Int) (returned : List (Answer Id Token)) (k : Nat) (x : Slave Id Token) :
    Prop where
  table : x.savedSession = replay x.log
  /-- A session is accepted only with its token. -/
  legal : ∀ log session secret id, log ++ [.answer (.verified session secret (some id))] <+: x.log →
    replay log session = some ⟨id, some secret⟩
  timed : ∀ log session, log ++ [.expired session] <+: x.log → ∃ id token, .answer (.saved session id token) ∈ log
  timers : ∀ session ∈ x.timers, ∃ id token, .answer (.saved session id token) ∈ x.log
  routed : (∀ r ∈ x.inbox, route nslave r.session = k) ∧ ∀ e ∈ x.log, route nslave e.session = k
  queue : returned ++ x.outbox = answers x.log
  once : ∀ session, x.saves session ≤ 1
  fresh : ∀ session, sessionId ≤ session → x.saves session = 0

theorem answers_snoc (log : List (Entry Id Token)) (a : Answer Id Token) :
    answers (log ++ [.answer a]) = answers log ++ [a] := by
  simp [answers, Entry.answer?]

theorem mem_answers {log : List (Entry Id Token)} {a : Answer Id Token} : a ∈ answers log ↔ .answer a ∈ log := by
  simp only [answers, List.mem_filterMap]
  constructor
  · rintro ⟨e, he, ha⟩
    cases e with
    | answer a' =>
      obtain rfl := Option.some.inj ha
      exact he
    | expired session => cases ha
  · intro h
    exact ⟨_, h, rfl⟩

/-- What `cmd_slave_verify` answers, and what it makes of the table. -/
theorem cmdSlaveVerify_cases [DecidableEq Token] (table : Int → Option (Saved Id Token)) (session : Int)
    (secret : Token) :
    (∃ id, cmdSlaveVerify table session secret =
        (Entry.apply table (.answer (.verified session secret (some id))), some id) ∧
      table session = some ⟨id, some secret⟩) ∨ cmdSlaveVerify table session secret = (table, none) := by
  unfold cmdSlaveVerify
  split
  · rename_i t ht
    split
    · rename_i htoken
      obtain ⟨id, token⟩ := t
      obtain rfl : some secret = token := htoken
      exact .inl ⟨id, by simp [Entry.apply, ht], ht⟩
    · exact .inr rfl
  · exact .inr rfl

namespace SlaveOk

variable {nslave : Nat} {sessionId : Int} {returned : List (Answer Id Token)} {k : Nat} {x : Slave Id Token}

theorem init (nslave : Nat) (k : Nat) : SlaveOk nslave 1 [] k ({} : Slave Id Token) where
  table := rfl
  legal := fun log session secret id h => by simp at h
  timed := fun log session h => by simp at h
  timers := fun session h => by cases h
  routed := ⟨fun r h => (by cases h), fun e h => (by cases h)⟩
  queue := rfl
  once := fun session => Nat.zero_le _
  fresh := fun session _ => rfl

theorem call (h : SlaveOk nslave sessionId returned k x) {r : Request Id Token} {sessionId' : Int}
    (hle : sessionId ≤ sessionId') (hroute : route nslave r.session = k)
    (hnew : ∀ session, r.saves session = true → session = sessionId ∧ sessionId < sessionId') :
    SlaveOk nslave sessionId' returned k { x with inbox := x.inbox ++ [r] } := by
  have hsaves : ∀ session, { x with inbox := x.inbox ++ [r] }.saves session =
      x.saves session + if r.saves session then 1 else 0 := by
    intro session
    simp only [Slave.saves, List.countP_append, List.countP_singleton]
    omega
  refine ⟨h.table, h.legal, h.timed, h.timers, ⟨fun r' hr' => ?_, h.routed.2⟩, h.queue, fun session => ?_,
    fun session hsession => ?_⟩
  · rcases List.mem_append.mp hr' with hr' | hr'
    · exact h.routed.1 r' hr'
    · rw [List.mem_singleton.mp hr']
      exact hroute
  · rw [hsaves]
    split
    · rename_i hsave
      have hzero := h.fresh session (Int.le_of_eq (hnew session hsave).1.symm)
      omega
    · exact h.once session
  · rw [hsaves, h.fresh session (Int.le_trans hle hsession)]
    split
    · rename_i hsave
      obtain ⟨rfl, hlt⟩ := hnew session hsave
      omega
    · rfl

theorem answer (h : SlaveOk nslave sessionId returned k x) {a : Answer Id Token} {r : Request Id Token}
    {inbox : List (Request Id Token)} {timers : List Int} (hinbox : x.inbox = r :: inbox)
    (hsession : a.session = r.session) (hsaves : ∀ session, a.saves session = r.saves session)
    (hlegal : ∀ session secret id, a = .verified session secret (some id) →
      x.savedSession session = some ⟨id, some secret⟩)
    (htimers : ∀ session ∈ timers, session ∈ x.timers ∨ ∃ id token, a = .saved session id token) :
    SlaveOk nslave sessionId returned k
      ({ x with inbox, timers, savedSession := Entry.apply x.savedSession (.answer a) }.answer a) := by
  have hcount : ∀ session, ({ x with
      inbox, timers, savedSession := Entry.apply x.savedSession (.answer a) }.answer a).saves session =
        x.saves session := by
    intro session
    simp only [Slave.saves, Slave.answer, answers_snoc, hinbox, List.countP_append, List.countP_cons, List.countP_nil,
      hsaves]
    omega
  refine { table := ?table
           legal := fun log session secret id hlog => ?legal
           timed := fun log session hlog => ?timed
           timers := fun session hsession' => ?timers
           routed := ⟨fun r' hr' => ?inbox, fun e he => ?log⟩
           queue := ?queue
           once := fun session => ?once
           fresh := fun session hle => ?fresh }
  case table =>
    change Entry.apply x.savedSession (.answer a) = replay (x.log ++ [.answer a])
    rw [replay_snoc, h.table]
  case legal =>
    rcases List.prefix_concat_iff.mp hlog with heq | hlog
    · obtain ⟨rfl, he⟩ := List.append_inj' heq rfl
      obtain rfl : a = .verified session secret (some id) := by simpa using he.symm
      rw [← h.table]
      exact hlegal session secret id rfl
    · exact h.legal log session secret id hlog
  case timed =>
    rcases List.prefix_concat_iff.mp hlog with heq | hlog
    · obtain ⟨-, he⟩ := List.append_inj' heq rfl
      cases he
    · exact h.timed log session hlog
  case timers =>
    rcases htimers session hsession' with hold | ⟨id, token, rfl⟩
    · obtain ⟨id, token, hmem⟩ := h.timers session hold
      exact ⟨id, token, List.mem_append_left _ hmem⟩
    · exact ⟨id, token, List.mem_append_right _ (List.mem_singleton_self _)⟩
  case inbox =>
    exact h.routed.1 r' (hinbox ▸ List.mem_cons_of_mem _ hr')
  case log =>
    rcases List.mem_append.mp he with he | he
    · exact h.routed.2 e he
    · rw [List.mem_singleton.mp he]
      change route nslave a.session = k
      rw [hsession]
      exact h.routed.1 r (hinbox ▸ List.mem_cons_self)
  case queue =>
    change returned ++ (x.outbox ++ [a]) = answers (x.log ++ [.answer a])
    rw [answers_snoc, ← h.queue, List.append_assoc]
  case once =>
    rw [hcount]
    exact h.once session
  case fresh =>
    rw [hcount]
    exact h.fresh session hle

theorem handle [DecidableEq Token] (h : SlaveOk nslave sessionId returned k x) {x' : Slave Id Token}
    (hx : x.handle = some x') : SlaveOk nslave sessionId returned k x' := by
  unfold Slave.handle at hx
  split at hx
  · cases hx
  · rename_i session id token inbox hinbox
    obtain rfl := Option.some.inj hx
    refine h.answer (a := .saved session id token) hinbox rfl (fun _ => rfl) (fun _ _ _ heq => ?_)
      fun session' hsession' => ?_
    · cases heq
    · rcases List.mem_append.mp hsession' with hold | hnew
      · exact .inl hold
      · rw [List.mem_singleton.mp hnew]
        exact .inr ⟨id, token, rfl⟩
  · rename_i session secret inbox hinbox
    obtain rfl := Option.some.inj hx
    rcases cmdSlaveVerify_cases x.savedSession session secret with ⟨id, heq, htoken⟩ | heq
    · rw [heq]
      refine h.answer (a := .verified session secret (some id)) hinbox rfl (fun _ => rfl)
        (fun session' secret' id' ha => ?_) fun _ hold => .inl hold
      cases ha
      exact htoken
    · rw [heq]
      refine h.answer (a := .verified session secret none) hinbox rfl (fun _ => rfl)
        (fun session' secret' id' ha => ?_) fun _ hold => .inl hold
      cases ha

theorem expire (h : SlaveOk nslave sessionId returned k x) {i : Nat} {x' : Slave Id Token}
    (hx : x.expire i = some x') : SlaveOk nslave sessionId returned k x' := by
  unfold Slave.expire at hx
  split at hx
  · rename_i session hget
    obtain rfl := Option.some.inj hx
    have hmem : session ∈ x.timers := List.mem_of_getElem? hget
    obtain ⟨id, token, hsaved⟩ := h.timers session hmem
    have hanswers : answers (x.log ++ [.expired session]) = answers x.log := by simp [answers, Entry.answer?]
    refine { table := ?table
             legal := fun log session' secret id' hlog => ?legal
             timed := fun log session' hlog => ?timed
             timers := fun session' hsession' => ?timers
             routed := ⟨h.routed.1, fun e he => ?routed⟩
             queue := ?queue
             once := fun session' => ?once
             fresh := fun session' hle => ?fresh }
    case table =>
      change Function.update x.savedSession session none = replay (x.log ++ [.expired session])
      rw [replay_snoc, h.table]
      rfl
    case legal =>
      rcases List.prefix_concat_iff.mp hlog with heq | hlog
      · obtain ⟨-, he⟩ := List.append_inj' heq rfl
        cases he
      · exact h.legal log session' secret id' hlog
    case timed =>
      rcases List.prefix_concat_iff.mp hlog with heq | hlog
      · obtain ⟨rfl, he⟩ := List.append_inj' heq rfl
        obtain rfl : session' = session := by simpa using he
        exact ⟨id, token, hsaved⟩
      · exact h.timed log session' hlog
    case timers =>
      obtain ⟨id', token', hmem'⟩ := h.timers session' (List.mem_of_mem_eraseIdx hsession')
      exact ⟨id', token', List.mem_append_left _ hmem'⟩
    case routed =>
      rcases List.mem_append.mp he with he | he
      · exact h.routed.2 e he
      · rw [List.mem_singleton.mp he]
        exact (h.routed.2 _ hsaved : route nslave session = k)
    case queue =>
      exact h.queue.trans hanswers.symm
    case once =>
      simp only [Slave.saves, hanswers]
      exact h.once session'
    case fresh =>
      simp only [Slave.saves, hanswers]
      exact h.fresh session' hle
  · cases hx

end SlaveOk

/-! ### Runs -/

/-- The answers of the slave `k`. -/
def Server.returnedBy (nslave : Nat) (s : Server Id Token) (k : Nat) : List (Answer Id Token) :=
  s.returned.filter fun a => route nslave a.session = k

def ServerOk (nslave : Nat) (s : Server Id Token) : Prop :=
  ∀ k, SlaveOk nslave s.sessionId (s.returnedBy nslave k) k (s.slave k)

theorem ServerOk.setSlave {nslave : Nat} {s : Server Id Token} (h : ServerOk nslave s) {sessionId : Int}
    (hle : s.sessionId ≤ sessionId) {k : Nat} {x : Slave Id Token}
    (hx : SlaveOk nslave sessionId (s.returnedBy nslave k) k x) :
    ServerOk nslave ({ s with sessionId }.setSlave k x) := by
  intro k'
  by_cases hk : k' = k
  · subst hk
    have hself : ({ s with sessionId }.setSlave k' x).slave k' = x := by simp [Server.setSlave]
    rw [hself]
    exact hx
  · have hsame : ({ s with sessionId }.setSlave k x).slave k' = s.slave k' := by simp [Server.setSlave, hk]
    rw [hsame]
    exact { h k' with fresh := fun session hsession => (h k').fresh session (Int.le_trans hle hsession) }

theorem ServerOk.answer {nslave : Nat} {s : Server Id Token} (h : ServerOk nslave s) {k : Nat} {a : Answer Id Token}
    {outbox : List (Answer Id Token)} (houtbox : (s.slave k).outbox = a :: outbox) :
    ServerOk nslave { s.setSlave k { s.slave k with outbox } with returned := s.returned ++ [a] } := by
  have hroute : route nslave a.session = k := by
    have hmem : a ∈ answers (s.slave k).log := by
      rw [← (h k).queue, houtbox]
      exact List.mem_append_right _ List.mem_cons_self
    exact (h k).routed.2 _ (mem_answers.mp hmem)
  intro k'
  have hreturned : { s.setSlave k { s.slave k with outbox } with returned := s.returned ++ [a] }.returnedBy nslave k' =
      s.returnedBy nslave k' ++ if k' = k then [a] else [] := by
    simp only [Server.returnedBy, List.filter_append, List.append_cancel_left_eq]
    split
    · rename_i hk
      simp [hroute, hk]
    · rename_i hk
      simp [hroute, Ne.symm hk]
  rw [hreturned]
  by_cases hk : k' = k
  · subst hk
    have hslave : ({ s.setSlave k' { s.slave k' with outbox } with returned := s.returned ++ [a] }).slave k' =
        { s.slave k' with outbox } := by simp [Server.setSlave]
    rw [hslave, if_pos rfl]
    refine { h k' with queue := ?_ }
    rw [List.append_assoc]
    change s.returnedBy nslave k' ++ ([a] ++ outbox) = answers (s.slave k').log
    rw [← (h k').queue, houtbox]
    rfl
  · have hslave : ({ s.setSlave k { s.slave k with outbox } with returned := s.returned ++ [a] }).slave k' =
        s.slave k' := by simp [Server.setSlave, hk]
    rw [hslave, if_neg hk, List.append_nil]
    exact h k'

theorem serverOk_step [DecidableEq Token] {nslave : Nat} {s s' : Server Id Token} {event : Event Id Token}
    (h : ServerOk nslave s) (hstep : step nslave s event = some s') : ServerOk nslave s' := by
  cases event with
  | cmdServerSaveSession id token =>
    obtain rfl := Option.some.inj hstep
    have hle : s.sessionId ≤ s.sessionId + 1 := by omega
    refine h.setSlave hle ((h _).call hle rfl fun session hsave => ?_)
    obtain rfl : s.sessionId = session := by simpa [Request.saves] using hsave
    exact ⟨rfl, by omega⟩
  | cmdServerVerify session token =>
    obtain rfl := Option.some.inj hstep
    refine h.setSlave (Int.le_refl _) ((h _).call (Int.le_refl _) rfl fun session hsave => ?_)
    cases hsave
  | handle k =>
    obtain ⟨x, hx, rfl⟩ := Option.map_eq_some_iff.mp hstep
    exact h.setSlave (Int.le_refl _) ((h k).handle hx)
  | expire k i =>
    obtain ⟨x, hx, rfl⟩ := Option.map_eq_some_iff.mp hstep
    exact h.setSlave (Int.le_refl _) ((h k).expire hx)
  | answer k =>
    simp only [step] at hstep
    split at hstep
    · rename_i a outbox houtbox
      obtain rfl := Option.some.inj hstep
      exact h.answer houtbox
    · cases hstep

/-- The next message of the slave `k` is a token that it does not accept. -/
def Refuses [DecidableEq Token] (s : Server Id Token) (k : Nat) : Prop :=
  ∃ session secret inbox, (s.slave k).inbox = .cmdSlaveVerify session secret :: inbox ∧
    (cmdSlaveVerify (s.slave k).savedSession session secret).2 = none

/-- The steps of a call of `cmd_server_verify` that does not return an id. -/
def Unverified [DecidableEq Token] (s : Server Id Token) : Event Id Token → Prop
  | .cmdServerVerify _ _ => True
  | .handle k => Refuses s k
  | .answer _ => True
  | _ => False

theorem savedSession_of_unverified [DecidableEq Token] {nslave : Nat} {s s' : Server Id Token} {event : Event Id Token}
    (hevent : Unverified s event) (hstep : step nslave s event = some s') (k : Nat) :
    (s'.slave k).savedSession = (s.slave k).savedSession := by
  have hset : ∀ {k' : Nat} {x : Slave Id Token}, x.savedSession = (s.slave k').savedSession →
      ((s.setSlave k' x).slave k).savedSession = (s.slave k).savedSession := by
    intro k' x hx
    by_cases hk : k = k'
    · subst hk
      simpa [Server.setSlave] using hx
    · simp [Server.setSlave, hk]
  cases event with
  | cmdServerSaveSession id token => cases hevent
  | cmdServerVerify session token =>
    obtain rfl := Option.some.inj hstep
    exact hset rfl
  | handle k' =>
    obtain ⟨x, hx, rfl⟩ := Option.map_eq_some_iff.mp hstep
    obtain ⟨session, secret, inbox, hinbox, hnone⟩ := hevent
    refine hset ?_
    simp only [Slave.handle, hinbox, Option.some.injEq] at hx
    subst hx
    change (cmdSlaveVerify (s.slave k').savedSession session secret).1 = _
    rcases cmdSlaveVerify_cases (s.slave k').savedSession session secret with ⟨id, heq, -⟩ | heq
    · rw [heq] at hnone
      cases hnone
    · rw [heq]
  | expire k' i => cases hevent
  | answer k' =>
    simp only [step] at hstep
    split at hstep
    · obtain rfl := Option.some.inj hstep
      exact hset rfl
    · cases hstep

/-! ### What has been returned -/

namespace SlaveOk

variable {nslave : Nat} {sessionId : Int} {returned : List (Answer Id Token)} {k : Nat} {x : Slave Id Token}

theorem not_saved_before (h : SlaveOk nslave sessionId returned k x) {before after : List (Entry Id Token)}
    {session : Int} {id : Id} {token : Option Token}
    (hlog : before ++ .answer (.saved session id token) :: after <+: x.log) (id' : Id) (token' : Option Token) :
    .answer (.saved session id' token') ∉ before := by
  intro hmem
  have hpos : 0 < (answers before).countP (Answer.saves session) :=
    List.countP_pos_iff.mpr ⟨_, mem_answers.mpr hmem, by simp [Answer.saves]⟩
  obtain ⟨rest, hrest⟩ := hlog
  have honce := h.once session
  have hcount : (answers x.log).countP (Answer.saves session) = (answers before).countP (Answer.saves session) + 1 +
      ((answers after).countP (Answer.saves session) + (answers rest).countP (Answer.saves session)) := by
    rw [← hrest]
    simp [answers, Entry.answer?, Answer.saves]
    omega
  rw [Slave.saves, hcount] at honce
  omega

/-- An accepted session has been saved for the account and with the token, and before it was accepted it neither expired nor
was accepted. -/
theorem accepted (h : SlaveOk nslave sessionId returned k x) {log : List (Entry Id Token)} {session : Int}
    {secret : Token} {id : Id} (hlog : log ++ [.answer (.verified session secret (some id))] <+: x.log) :
    .answer (.saved session id (some secret)) ∈ log ∧ .expired session ∉ log ∧
      ∀ secret' id', .answer (.verified session secret' (some id')) ∉ log := by
  obtain ⟨before, after, rfl, hexpired, hverified⟩ := saved_of_replay (h.legal log session secret id hlog)
  have hpre : before ++ .answer (.saved session id (some secret)) :: after <+: x.log :=
    (List.prefix_append _ _).trans hlog
  have hnone := h.not_saved_before hpre
  -- what comes before the save would need a save of its own
  have hearly : ∀ e, e ∈ before → ∃ done, done ++ [e] <+: x.log ∧ ∀ id' token', .answer (.saved session id' token') ∉ done := by
    intro e he
    obtain ⟨done, rest, rfl⟩ := List.append_of_mem he
    refine ⟨done, ?_, fun id' token' hmem => hnone id' token' (List.mem_append_left _ hmem)⟩
    refine List.IsPrefix.trans ⟨rest ++ .answer (.saved session id (some secret)) :: after, ?_⟩ hpre
    simp
  refine ⟨by simp, fun hmem => ?_, fun secret' id' hmem => ?_⟩
  · rcases List.mem_append.mp hmem with hmem | hmem
    · obtain ⟨done, hdone, hnone'⟩ := hearly _ hmem
      obtain ⟨id', token', hsaved⟩ := h.timed done session hdone
      exact hnone' id' token' hsaved
    · exact hexpired (by simpa using hmem)
  · rcases List.mem_append.mp hmem with hmem | hmem
    · obtain ⟨done, hdone, hnone'⟩ := hearly _ hmem
      obtain ⟨before', after', rfl, -, -⟩ := saved_of_replay (h.legal done session secret' id' hdone)
      exact hnone' id' (some secret') (by simp)
    · exact hverified secret' id' (by simpa using hmem)

end SlaveOk

/-- The session that a call of `cmd_server_save_session` has returned. -/
def Answer.savedSession? : Answer Id Token → Option Int
  | .saved session _ _ => some session
  | .verified _ _ _ => none

theorem prefix_of_answers {log : List (Entry Id Token)} {before : List (Answer Id Token)} {a : Answer Id Token}
    (h : before ++ [a] <+: answers log) : ∃ done, done ++ [.answer a] <+: log ∧ answers done = before := by
  obtain ⟨after, hafter⟩ := h
  rw [List.append_assoc] at hafter
  obtain ⟨l₁, l₂, rfl, hl₁, hl₂⟩ := List.filterMap_eq_append_iff.mp hafter.symm
  obtain ⟨l₃, e, l₄, rfl, hl₃, he, -⟩ := List.filterMap_eq_cons_iff.mp hl₂
  obtain rfl : e = .answer a := by
    cases e with
    | answer a' => rw [Option.some.inj he]
    | expired session => cases he
  refine ⟨l₁ ++ l₃, ⟨l₄, by simp⟩, ?_⟩
  have hnil : answers l₃ = [] := List.filterMap_eq_nil_iff.mpr hl₃
  rw [answers, List.filterMap_append]
  change answers l₁ ++ answers l₃ = before
  rw [hnil, List.append_nil]
  exact hl₁

theorem count_savedSession (l : List (Answer Id Token)) (session : Int) :
    (l.filterMap Answer.savedSession?).count session = l.countP (Answer.saves session) := by
  induction l with
  | nil => rfl
  | cons a l ih =>
    cases a with
    | saved session' id token =>
      have hsome : (Answer.saved session' id token).savedSession? = some session' := rfl
      rw [List.filterMap_cons_some hsome, List.count_cons, List.countP_cons, ih]
      simp [Answer.saves]
    | verified session' secret id =>
      rw [List.filterMap_cons_none rfl, List.countP_cons, ih]
      simp [Answer.saves]

theorem ServerOk.count_returned {nslave : Nat} {s : Server Id Token} (h : ServerOk nslave s) (session : Int) :
    (s.returned.filterMap Answer.savedSession?).count session ≤ 1 := by
  have hslave := h (route nslave session)
  have hfilter : s.returned.countP (Answer.saves session) =
      (s.returnedBy nslave (route nslave session)).countP (Answer.saves session) := by
    rw [Server.returnedBy, List.countP_filter]
    refine List.countP_congr fun a _ => ?_
    cases a with
    | saved session' id token =>
      simp only [Answer.saves, Answer.session, decide_eq_true_eq, Bool.and_eq_true]
      exact ⟨fun heq => ⟨heq, by simp [heq]⟩, fun hboth => hboth.1⟩
    | verified session' secret id => simp [Answer.saves]
  have honce := hslave.once session
  rw [count_savedSession, hfilter]
  rw [Slave.saves, ← hslave.queue, List.countP_append] at honce
  omega

variable [DecidableEq Token]

/-- **A session is accepted once and for its owner.** For any number of slaves and every order of calls, messages and
timers: the sessions that have been returned are distinct; a call of `cmd_server_verify` returns an account only if a call
of `cmd_server_save_session` for the account and with the token has returned the session before, none before it has
returned an account for the session, and the session had not expired when the slave accepted it; and no step of a call that
does not return an account changes a saved session. -/
theorem session_accepted_once (nslave : Nat) (events : List (Event Id Token)) (s : Server Id Token)
    (hrun : run (step nslave) {} events = some s) :
    (s.returned.filterMap Answer.savedSession?).Nodup ∧
      (∀ before session secret id, before ++ [.verified session secret (some id)] <+: s.returned →
        .saved session id (some secret) ∈ before ∧
        (∀ secret' id', .verified session secret' (some id') ∉ before) ∧
        ∃ log, log ++ [.answer (.verified session secret (some id))] <+: (s.slave (route nslave session)).log ∧
          .expired session ∉ log) ∧
      ∀ event s', step nslave s event = some s' → Unverified s event →
        ∀ k, (s'.slave k).savedSession = (s.slave k).savedSession := by
  have hany : Along (step nslave) (fun _ _ => True) ({} : Server Id Token) events := fun _ _ _ _ _ => trivial
  have hok : ServerOk nslave s :=
    run_invariant (fun _ _ _ h _ hstep => serverOk_step h hstep) (fun k => SlaveOk.init nslave k) hany hrun
  refine ⟨List.nodup_iff_count_le_one.mpr fun session => ?_, fun before session secret id hbefore => ?_,
    fun event s' hstep hevent => savedSession_of_unverified hevent hstep⟩
  · exact hok.count_returned session
  · have hslave := hok (route nslave session)
    have hfilter : before.filter (fun a => route nslave a.session = route nslave session) ++
        [.verified session secret (some id)] <+: answers (s.slave (route nslave session)).log := by
      rw [← hslave.queue]
      refine List.IsPrefix.trans ?_ (List.prefix_append _ _)
      have hkept := hbefore.filter fun a => decide (route nslave a.session = route nslave session)
      have hself : [Answer.verified session secret (some id)].filter
          (fun a => decide (route nslave a.session = route nslave session)) = [.verified session secret (some id)] := by
        simp [Answer.session]
      rw [List.filter_append, hself] at hkept
      exact hkept
    obtain ⟨log, hlog, hanswers⟩ := prefix_of_answers hfilter
    obtain ⟨hsaved, hexpired, hverified⟩ := hslave.accepted hlog
    refine ⟨?_, fun secret' id' hmem => hverified secret' id' ?_, log, hlog, hexpired⟩
    · have hmem := mem_answers.mpr hsaved
      rw [hanswers] at hmem
      exact (List.mem_filter.mp hmem).1
    · refine mem_answers.mp ?_
      rw [hanswers]
      exact List.mem_filter.mpr ⟨hmem, by simp [Answer.session]⟩

/-- Two clients log in. The session of the first is verified twice. -/
def twoClients : List (Event String String) :=
  [.cmdServerSaveSession "a" (some "1"), .cmdServerSaveSession "b" (some "2"), .handle 1, .handle 0, .answer 1,
    .cmdServerVerify 1 "1", .cmdServerVerify 1 "1", .handle 1, .handle 1, .answer 1, .answer 1, .answer 0]

theorem session_accepted_once_two_clients :
    ∃ s, run (step 2) {} twoClients = some s ∧
      s.returned = [.saved 1 "a" (some "1"), .verified 1 "1" (some "a"), .verified 1 "1" none, .saved 2 "b" (some "2")] ∧
      (s.returned.filterMap Answer.savedSession?).Nodup := by
  obtain ⟨s, hrun, hreturned⟩ : ∃ s, run (step 2) {} twoClients = some s ∧ s.returned =
      [.saved 1 "a" (some "1"), .verified 1 "1" (some "a"), .verified 1 "1" none, .saved 2 "b" (some "2")] :=
    ⟨_, rfl, by decide⟩
  exact ⟨s, hrun, hreturned, (session_accepted_once 2 twoClients s hrun).1⟩

end SkynetServer.Login
