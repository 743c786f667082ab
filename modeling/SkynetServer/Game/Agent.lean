import Mathlib.Algebra.BigOperators.Group.Multiset.Basic
import Mathlib.Algebra.Order.Group.Multiset
import Mathlib.Tactic.Abel
import SkynetServer.Game.Gateserver

/-!
# An agent

The commands of `agent.lua` that `gamed` calls. A handler is suspended in its calls to the database, where it waits as
a `Handler`, and in its calls to `gamed`. A call carries the handler that made it: the request, the handler that serves
it and the answer are one thing that moves, so that no handler is answered twice and none waits for an answer that
nobody owes. A save is a call to the database even if there is nothing to save, and so is the note of the logout.
`record` is the `info` of the module of that name, which is not there before the first login is complete. An error in a
command is caught, and its caller gets an empty answer. An agent that has left answers every call with an error. `kicks`
are the calls of `cmd_gamed_kick` that `gamed` has not answered, because `close_client` waits for the logger.
-/

namespace SkynetServer.Game

/-- An account. -/
abbrev Id := Nat

/-- A table of `online_account`. -/
abbrev Ref := Nat

/-- A handler of `cmd_gamed_close` that waits in `forward_agent`. -/
abbrev Task := Nat

/-- `login_handler` for the client `fd`, which has found the table `info` of an agent. -/
structure Takeover where
  fd : Fd
  info : Ref
deriving DecidableEq

/-- A handler of `gamed` that waits for the answer of an agent. -/
inductive Caller where
  | otherLogin (takeover : Takeover)
  | kicking (takeover : Takeover)
  | opening (fd : Fd) (task : Option Task)
  | closing (fd : Fd)
deriving DecidableEq

/-- A message from `gamed`: a call, or the answer to a call of the agent. -/
inductive ToAgent where
  | cmdAgentOpen (fd : Fd) (id : Id) (task : Option Task)
  | cmdAgentOtherLogin (takeover : Takeover)
  | cmdAgentKick (takeover : Takeover)
  | cmdAgentClose (fd : Fd)
  | testDispatch (msg : String)
  | selfExit
  | closeDone (fd : Fd)
  | kickDone (takeover : Option Takeover)
deriving DecidableEq

/-- A message to `gamed`. -/
inductive ToGamed where
  | cmdGamedClose (id : Id) (fd : Fd)
  | cmdGamedKick (userFd : Option Fd) (takeover : Option Takeover)
  | answer (caller : Caller) (ok : Bool)
deriving DecidableEq

/-- A handler that waits for the database or the logger: `cmd_agent_open` before and after the user is there,
`cmd_agent_kick` before and in `save_data`, `cmd_agent_close` before and after the user is gone. -/
inductive Handler where
  | loading (fd : Fd) (id : Id) (task : Option Task)
  | login (fd : Fd) (task : Option Task)
  | logKick (takeover : Takeover)
  | saveKick (takeover : Takeover)
  | saveClose (fd : Fd)
  | logout (id : Id) (fd : Fd)
deriving DecidableEq

structure User where
  fd : Fd
  account : Id
deriving DecidableEq

structure Agent where
  user : Option User := none
  userFd : Option Fd := none
  record : Bool := false
  exited : Bool := false
  inbox : List ToAgent := []
  handlers : List Handler := []
  outbox : List ToGamed := []
  kicks : List (Fd × Option Takeover) := []
deriving DecidableEq

namespace Agent

def send (x : Agent) (msg : ToGamed) : Agent := { x with outbox := x.outbox ++ [msg] }

/-- The end of a command. -/
def ret (x : Agent) (caller : Caller) : Agent := x.send (.answer caller true)

def suspend (x : Agent) (handler : Handler) : Agent := { x with handlers := x.handlers ++ [handler] }

/-- Whether `save_data` gets as far as the database. -/
def canSave (x : Agent) : Bool := x.user.isSome && x.record

/-- The caller of a handler gets an error. -/
def abandon : Handler → ToGamed
  | .loading fd _ task => .answer (.opening fd task) false
  | .login fd task => .answer (.opening fd task) false
  | .logKick takeover => .answer (.kicking takeover) false
  | .saveKick takeover => .answer (.kicking takeover) false
  | .saveClose fd => .answer (.closing fd) false
  | .logout _ fd => .answer (.closing fd) false

/-- `self_exit`. -/
def selfExit (x : Agent) : Agent :=
  { x with exited := true, user := none, userFd := none, handlers := [], outbox := x.outbox ++ x.handlers.map abandon }

/-- A message that is handled; `bad` says whether a message of the client is one that `test_dispatch` does not know. -/
def dispatch (x : Agent) (bad : Bool) : ToAgent → Agent
  | .cmdAgentOpen fd id task => x.suspend (.loading fd id task)
  | .cmdAgentOtherLogin takeover => x.ret (.otherLogin takeover)
  | .cmdAgentKick takeover => x.suspend (.logKick takeover)
  | .cmdAgentClose fd => if x.canSave then x.suspend (.saveClose fd) else x.ret (.closing fd)
  | .testDispatch _ => if bad then x.send (.cmdGamedKick x.userFd none) else x
  | .selfExit => x.selfExit
  | .closeDone fd => x.ret (.closing fd)
  | .kickDone (some takeover) => x.ret (.kicking takeover)
  | .kickDone none => x

/-- What an agent that has left makes of a message. -/
def bounce (x : Agent) : ToAgent → Agent
  | .cmdAgentOpen fd _ task => x.send (.answer (.opening fd task) false)
  | .cmdAgentOtherLogin takeover => x.send (.answer (.otherLogin takeover) false)
  | .cmdAgentKick takeover => x.send (.answer (.kicking takeover) false)
  | .cmdAgentClose fd => x.send (.answer (.closing fd) false)
  | .closeDone fd => x.send (.answer (.closing fd) false)
  | .kickDone (some takeover) => x.send (.answer (.kicking takeover) false)
  | .testDispatch _ => x
  | .selfExit => x
  | .kickDone none => x

/-- The next message. -/
def receive (x : Agent) (bad : Bool) : Option Agent :=
  match x.inbox with
  | [] => none
  | msg :: inbox =>
    let x := { x with inbox }
    if x.exited then some (x.bounce msg) else some (x.dispatch bad msg)

/-- The database or the logger answers a handler; `ok` says whether the information of the account, or that of the traveler, was
there to be loaded. -/
def proceed (x : Agent) (ok : Bool) : Handler → Agent
  | .loading fd id task =>
    if ok then { x with user := some ⟨fd, id⟩, userFd := some fd }.suspend (.login fd task) else x.ret (.opening fd task)
  | .login fd task => { x with record := true }.ret (.opening fd task)
  | .logKick takeover => if x.canSave then x.suspend (.saveKick takeover) else x.ret (.kicking takeover)
  | .saveKick takeover => x.send (.cmdGamedKick x.userFd (some takeover))
  | .saveClose fd =>
    match x.user with
    | some user => { x with user := none, userFd := none }.suspend (.logout user.account fd)
    | none => x.ret (.closing fd)
  | .logout id fd => x.send (.cmdGamedClose id fd)

def resume (x : Agent) (i : Nat) (ok : Bool) : Option Agent :=
  match x.handlers[i]? with
  | some handler => some ({ x with handlers := x.handlers.eraseIdx i }.proceed ok handler)
  | none => none

/-! ### Reading the queues -/

/-- What the messages and handlers of an agent hold of some kind of thing. -/
structure Content (β : Type) where
  inbox : ToAgent → Multiset β
  handler : Handler → Multiset β
  outbox : ToGamed → Multiset β
  kick : Option Takeover → Multiset β

def total {β : Type} (content : Content β) (x : Agent) : Multiset β :=
  (x.inbox.map content.inbox).sum + (x.handlers.map content.handler).sum + (x.outbox.map content.outbox).sum +
    (x.kicks.map fun kick => content.kick kick.2).sum

section Total

variable {β : Type} (content : Content β)

@[simp] theorem total_send (x : Agent) (msg : ToGamed) :
    (x.send msg).total content = content.outbox msg + x.total content := by
  simp only [total, send, List.map_append, List.map_cons, List.map_nil, List.sum_append, List.sum_cons, List.sum_nil]
  abel

@[simp] theorem total_ret (x : Agent) (caller : Caller) :
    (x.ret caller).total content = content.outbox (.answer caller true) + x.total content :=
  total_send content x _

@[simp] theorem total_suspend (x : Agent) (handler : Handler) :
    (x.suspend handler).total content = content.handler handler + x.total content := by
  simp only [total, suspend, List.map_append, List.map_cons, List.map_nil, List.sum_append, List.sum_cons,
    List.sum_nil]
  abel

theorem total_push (x : Agent) (msg : ToAgent) :
    { x with inbox := x.inbox ++ [msg] }.total content = content.inbox msg + x.total content := by
  simp only [total, List.map_append, List.map_cons, List.map_nil, List.sum_append, List.sum_cons, List.sum_nil]
  abel

theorem total_pop {x : Agent} {msg : ToAgent} {inbox : List ToAgent} (h : x.inbox = msg :: inbox) :
    x.total content = content.inbox msg + { x with inbox }.total content := by
  simp only [total, h, List.map_cons, List.sum_cons]
  abel

theorem total_pop_outbox {x : Agent} {msg : ToGamed} {outbox : List ToGamed} (h : x.outbox = msg :: outbox) :
    x.total content = content.outbox msg + { x with outbox }.total content := by
  simp only [total, h, List.map_cons, List.sum_cons]
  abel

theorem total_eraseIdx {x : Agent} {i : Nat} {handler : Handler} (h : x.handlers[i]? = some handler) :
    x.total content = content.handler handler + { x with handlers := x.handlers.eraseIdx i }.total content := by
  have hsum : (x.handlers.map content.handler).sum =
      content.handler handler + ((x.handlers.eraseIdx i).map content.handler).sum := by
    obtain ⟨hi, rfl⟩ := List.getElem?_eq_some_iff.mp h
    exact ((List.getElem_cons_eraseIdx_perm hi).map content.handler).sum_eq.symm
  simp only [total, hsum]
  abel

theorem total_pushKick (x : Agent) (kick : Fd × Option Takeover) :
    { x with kicks := x.kicks ++ [kick] }.total content = content.kick kick.2 + x.total content := by
  simp only [total, List.map_append, List.map_cons, List.map_nil, List.sum_append, List.sum_cons, List.sum_nil]
  abel

theorem total_eraseKick {x : Agent} {i : Nat} {kick : Fd × Option Takeover} (h : x.kicks[i]? = some kick) :
    x.total content = content.kick kick.2 + { x with kicks := x.kicks.eraseIdx i }.total content := by
  have hsum : (x.kicks.map fun kick => content.kick kick.2).sum =
      content.kick kick.2 + ((x.kicks.eraseIdx i).map fun kick => content.kick kick.2).sum := by
    obtain ⟨hi, rfl⟩ := List.getElem?_eq_some_iff.mp h
    exact ((List.getElem_cons_eraseIdx_perm hi).map fun kick => content.kick kick.2).sum_eq.symm
  simp only [total, hsum]
  abel

end Total

theorem content_le_sum {α β : Type} {content : α → Multiset β} {l : List α} {a : α} (h : a ∈ l) :
    content a ≤ (l.map content).sum := by
  obtain ⟨l₁, l₂, rfl⟩ := List.append_of_mem h
  simp only [List.map_append, List.map_cons, List.sum_append, List.sum_cons]
  exact (Multiset.le_add_right _ _).trans (Multiset.le_add_left _ _)

section

variable {β : Type} (content : Content β) {x : Agent} {b : β}

theorem mem_total_of_inbox {msg : ToAgent} (h : msg ∈ x.inbox) (hb : b ∈ content.inbox msg) : b ∈ x.total content :=
  Multiset.mem_add.mpr (.inl (Multiset.mem_add.mpr (.inl (Multiset.mem_add.mpr (.inl
    (Multiset.mem_of_le (content_le_sum h) hb))))))

theorem mem_total_of_handlers {handler : Handler} (h : handler ∈ x.handlers) (hb : b ∈ content.handler handler) :
    b ∈ x.total content :=
  Multiset.mem_add.mpr (.inl (Multiset.mem_add.mpr (.inl (Multiset.mem_add.mpr (.inr
    (Multiset.mem_of_le (content_le_sum h) hb))))))

theorem mem_total_of_outbox {msg : ToGamed} (h : msg ∈ x.outbox) (hb : b ∈ content.outbox msg) : b ∈ x.total content :=
  Multiset.mem_add.mpr (.inl (Multiset.mem_add.mpr (.inr (Multiset.mem_of_le (content_le_sum h) hb))))

theorem mem_total_of_kicks {kick : Fd × Option Takeover} (h : kick ∈ x.kicks) (hb : b ∈ content.kick kick.2) :
    b ∈ x.total content := by
  have hle : content.kick kick.2 ≤ (x.kicks.map fun kick => content.kick kick.2).sum := content_le_sum h
  exact Multiset.mem_add.mpr (.inr (Multiset.mem_of_le hle hb))

theorem mem_sum_content {α : Type} {content : α → Multiset β} {l : List α} (h : b ∈ (l.map content).sum) :
    ∃ a ∈ l, b ∈ content a := by
  induction l with
  | nil => cases h
  | cons a l ih =>
    rw [List.map_cons, List.sum_cons, Multiset.mem_add] at h
    rcases h with h | h
    · exact ⟨a, List.mem_cons_self, h⟩
    · obtain ⟨a', ha', hb⟩ := ih h
      exact ⟨a', List.mem_cons_of_mem _ ha', hb⟩

end

theorem receive_cases {x x' : Agent} {bad : Bool} (h : x.receive bad = some x') :
    ∃ msg inbox, x.inbox = msg :: inbox ∧
      ((x.exited = true ∧ x' = { x with inbox }.bounce msg) ∨
        (x.exited = false ∧ x' = { x with inbox }.dispatch bad msg)) := by
  unfold receive at h
  split at h
  · cases h
  · rename_i msg inbox hinbox
    refine ⟨msg, inbox, hinbox, ?_⟩
    dsimp only at h
    split at h
    · rename_i hexited
      exact .inl ⟨hexited, (Option.some.inj h).symm⟩
    · rename_i hexited
      exact .inr ⟨by simpa using hexited, (Option.some.inj h).symm⟩

theorem resume_cases {x x' : Agent} {i : Nat} {ok : Bool} (h : x.resume i ok = some x') :
    ∃ handler, x.handlers[i]? = some handler ∧
      x' = { x with handlers := x.handlers.eraseIdx i }.proceed ok handler := by
  unfold resume at h
  split at h
  · rename_i handler hhandler
    exact ⟨handler, hhandler, (Option.some.inj h).symm⟩
  · cases h

/-! ### Who waits for an agent -/

def callerContent : Content Caller where
  inbox
    | .cmdAgentOpen fd _ task => {.opening fd task}
    | .cmdAgentOtherLogin takeover => {.otherLogin takeover}
    | .cmdAgentKick takeover => {.kicking takeover}
    | .cmdAgentClose fd => {.closing fd}
    | .testDispatch _ => 0
    | .selfExit => 0
    | .closeDone fd => {.closing fd}
    | .kickDone takeover => takeover.elim 0 fun takeover => {.kicking takeover}
  handler
    | .loading fd _ task => {.opening fd task}
    | .login fd task => {.opening fd task}
    | .logKick takeover => {.kicking takeover}
    | .saveKick takeover => {.kicking takeover}
    | .saveClose fd => {.closing fd}
    | .logout _ fd => {.closing fd}
  outbox
    | .cmdGamedClose _ fd => {.closing fd}
    | .cmdGamedKick _ takeover => takeover.elim 0 fun takeover => {.kicking takeover}
    | .answer caller _ => {caller}
  kick := fun takeover => takeover.elim 0 fun takeover => {.kicking takeover}

/-- The handlers of `gamed` that wait for the agent. -/
def callers (x : Agent) : Multiset Caller := x.total callerContent

@[simp] theorem callers_send (x : Agent) (msg : ToGamed) :
    (x.send msg).callers = callerContent.outbox msg + x.callers :=
  total_send _ x msg

@[simp] theorem callers_ret (x : Agent) (caller : Caller) : (x.ret caller).callers = {caller} + x.callers :=
  total_ret _ x caller

@[simp] theorem callers_suspend (x : Agent) (handler : Handler) :
    (x.suspend handler).callers = callerContent.handler handler + x.callers :=
  total_suspend _ x handler

theorem callers_selfExit (x : Agent) : x.selfExit.callers = x.callers := by
  have habandon : callerContent.outbox ∘ abandon = callerContent.handler := by
    funext handler
    cases handler <;> rfl
  simp only [callers, total, selfExit, List.map_append, List.map_map, List.sum_append, habandon, List.map_nil,
    List.sum_nil]
  abel

theorem callers_dispatch (x : Agent) (bad : Bool) (msg : ToAgent) :
    (x.dispatch bad msg).callers = callerContent.inbox msg + x.callers := by
  cases msg with
  | cmdAgentOpen fd id task => exact callers_suspend x _
  | cmdAgentOtherLogin takeover => exact callers_ret x _
  | cmdAgentKick takeover => exact callers_suspend x _
  | cmdAgentClose fd =>
    simp only [dispatch]
    split
    · exact callers_suspend x _
    · exact callers_ret x _
  | testDispatch msg =>
    simp only [dispatch]
    split
    · exact callers_send x _
    · exact (zero_add _).symm
  | selfExit => exact (callers_selfExit x).trans (zero_add _).symm
  | closeDone fd => exact callers_ret x _
  | kickDone takeover =>
    cases takeover with
    | none => exact (zero_add _).symm
    | some takeover => exact callers_ret x _

theorem callers_bounce (x : Agent) (msg : ToAgent) :
    (x.bounce msg).callers = callerContent.inbox msg + x.callers := by
  cases msg with
  | testDispatch msg => exact (zero_add _).symm
  | selfExit => exact (zero_add _).symm
  | kickDone takeover =>
    cases takeover with
    | none => exact (zero_add _).symm
    | some takeover => exact callers_send x _
  | _ => exact callers_send x _

theorem callers_receive {x x' : Agent} {bad : Bool} (h : x.receive bad = some x') : x'.callers = x.callers := by
  obtain ⟨msg, inbox, hinbox, ⟨-, rfl⟩ | ⟨-, rfl⟩⟩ := receive_cases h
  · exact (callers_bounce _ msg).trans (total_pop _ hinbox).symm
  · exact (callers_dispatch _ bad msg).trans (total_pop _ hinbox).symm

theorem callers_proceed (x : Agent) (ok : Bool) (handler : Handler) :
    (x.proceed ok handler).callers = callerContent.handler handler + x.callers := by
  cases handler with
  | loading fd id task =>
    cases ok with
    | false => exact callers_ret x _
    | true => exact callers_suspend _ _
  | login fd task => exact callers_ret _ _
  | logKick takeover =>
    simp only [proceed]
    split
    · exact callers_suspend x _
    · exact callers_ret x _
  | saveKick takeover => exact callers_send x _
  | saveClose fd =>
    simp only [proceed]
    split
    · exact callers_suspend _ _
    · exact callers_ret x _
  | logout id fd => exact callers_send x _

theorem callers_resume {x x' : Agent} {i : Nat} {ok : Bool} (h : x.resume i ok = some x') : x'.callers = x.callers := by
  obtain ⟨handler, hhandler, rfl⟩ := resume_cases h
  exact (callers_proceed _ ok handler).trans (total_eraseIdx _ hhandler).symm

end Agent

end SkynetServer.Game
