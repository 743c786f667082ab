import SkynetServer.Game.Agent
import SkynetServer.Lib.Run
import SkynetServer.Lib.Table

/-!
# The game server

`gamed.lua` over `gameserver.lua` and `gateserver.lua`, with the agents. `gamed` handles one message at a time: an event
of a socket, the answer of the login server or of the launcher, a message of an agent, or a tick. Messages between
`gamed` and an agent arrive in the order in which they were sent; for the rest any order is possible. Of a table of
`online_account`, which `login_handler` keeps across its calls, `isKick` and `fd` are written together and never reset:
`kick` is the client for which the agent has been kicked. A login message that is not one fails like one that the login
server refuses. Of the sessions only the account matters here. `syslog.debugf` is a call to the logger: `close_client`
waits for it before `socketdriver.close`, and `cmd_gamed_close` before it writes to `clear_pool`.
-/

namespace SkynetServer.Game

open Lib

structure Info where
  agent : Handle
  kick : Option Fd := none
deriving DecidableEq

/-- An entry of `clear_pool`. -/
structure Pooled where
  agent : Handle
  expireTime : Nat
deriving DecidableEq

/-- A handler that waits in `create_agent`. -/
structure Creation where
  fd : Fd
  id : Id
  task : Option Task
deriving DecidableEq

/-- A handler of `cmd_gamed_close` that waits in `forward_agent`, or, if `logging`, for the logger; `close_fd` of `fd`
made the agent close. -/
structure Recycling where
  agent : Handle
  id : Id
  fd : Fd
  logging : Bool
deriving DecidableEq

structure Gamed where
  gate : Gate := {}
  pendingMsg : Fd → Option (List String) := fun _ => none
  /-- The clients that wait in `auth_handler`. -/
  authenticating : List Fd := []
  /-- The clients that `auth_handler` has refused and that `close_client` is going to close. -/
  refused : List Fd := []
  /-- For which account `auth_handler` has accepted the login of a client. -/
  accepted : Fd → Option Id := fun _ => none
  onlineAccount : Id → Option Ref := fun _ => none
  info : Ref → Info := fun _ => { agent := 0 }
  nextInfo : Ref := 0
  clearPool : Table Id Pooled := ∅
  creating : List Creation := []
  recycling : Table Task Recycling := ∅
  nextTask : Task := 0
  agent : Handle → Agent := fun _ => {}
  nextAgent : Handle := 0

namespace Gamed

def expireCleanTime : Nat := 60

def setAgent (s : Gamed) (a : Handle) (x : Agent) : Gamed := { s with agent := Function.update s.agent a x }

def send (s : Gamed) (a : Handle) (msg : ToAgent) : Gamed :=
  s.setAgent a { s.agent a with inbox := (s.agent a).inbox ++ [msg] }

/-- A message of an agent is taken, and `outbox` is left. -/
def popOutbox (s : Gamed) (a : Handle) (outbox : List ToGamed) : Gamed := s.setAgent a { s.agent a with outbox }

/-- `forward_agent` once it has an agent. -/
def openAgent (s : Gamed) (fd : Fd) (id : Id) (task : Option Task) (agent : Handle) : Gamed :=
  { s with
    onlineAccount := Function.update s.onlineAccount id (some s.nextInfo)
    info := Function.update s.info s.nextInfo { agent }
    nextInfo := s.nextInfo + 1 }.send agent (.cmdAgentOpen fd id task)

def forwardAgent (s : Gamed) (fd : Fd) (id : Id) (task : Option Task) : Gamed :=
  match s.clearPool.lookup id with
  | some pooled => { s with clearPool := s.clearPool.erase id }.openAgent fd id task pooled.agent
  | none => { s with creating := s.creating ++ [⟨fd, id, task⟩] }

/-- `skynet.newservice` returns. -/
def created (s : Gamed) (i : Nat) : Option Gamed :=
  match s.creating[i]? with
  | some ⟨fd, id, task⟩ =>
    some ({ s with creating := s.creating.eraseIdx i, nextAgent := s.nextAgent + 1 }.openAgent fd id task s.nextAgent)
  | none => none

/-- `cmd_gamed_close` waits. -/
def suspendClose (s : Gamed) (r : Recycling) : Gamed :=
  { s with recycling := s.recycling.insert s.nextTask r, nextTask := s.nextTask + 1 }

def cmdGamedClose (s : Gamed) (agent : Handle) (id : Id) (fd : Fd) : Gamed :=
  match s.onlineAccount id with
  | some ref =>
    match (s.info ref).kick with
    | some kick => (s.suspendClose ⟨agent, id, fd, false⟩).forwardAgent kick id (some s.nextTask)
    | none => { s with onlineAccount := Function.update s.onlineAccount id none }.suspendClose ⟨agent, id, fd, true⟩
  | none => s.suspendClose ⟨agent, id, fd, true⟩

/-- The end of `cmd_gamed_close`, and its answer. -/
def recycle (s : Gamed) (agent : Handle) (id : Id) (fd : Fd) (now : Nat) : Gamed :=
  let s := match s.clearPool.lookup id with
    | some pooled => s.send pooled.agent .selfExit
    | none => s
  { s with clearPool := s.clearPool.insert id ⟨agent, now + expireCleanTime⟩ }.send agent (.closeDone fd)

/-- The logger answers a handler of `cmd_gamed_close`. -/
def logged (s : Gamed) (task : Task) (now : Nat) : Option Gamed :=
  match s.recycling.lookup task with
  | some r =>
    if r.logging then some ({ s with recycling := s.recycling.erase task }.recycle r.agent r.id r.fd now) else none
  | none => none

/-- `cmd_gamed_kick` as far as the test of `close_client`. -/
def cmdGamedKick (s : Gamed) (agent : Handle) (userFd : Option Fd) (takeover : Option Takeover) : Gamed :=
  match userFd with
  | some fd =>
    if s.gate.closesClient fd then
      s.setAgent agent { s.agent agent with kicks := (s.agent agent).kicks ++ [(fd, takeover)] }
    else s.send agent (.kickDone takeover)
  | none => s.send agent (.kickDone takeover)

/-- The logger answers a handler of `cmd_gamed_kick`. -/
def kicked (s : Gamed) (agent : Handle) (i : Nat) : Option Gamed :=
  match (s.agent agent).kicks[i]? with
  | some (fd, takeover) =>
    some ({ s.setAgent agent { s.agent agent with kicks := (s.agent agent).kicks.eraseIdx i } with
      gate := s.gate.socketClose fd }.send agent (.kickDone takeover))
  | none => none

/-- The end of `forward_agent`; `cmd_gamed_close` goes on if that is where it was called. -/
def opened (s : Gamed) (agent : Handle) (fd : Fd) (task : Option Task) : Gamed :=
  let s := { s with
    pendingMsg := Function.update s.pendingMsg fd none
    gate := s.gate.forward fd agent }
  match task with
  | none => s
  | some task => { s with recycling := s.recycling.modify task fun r => { r with logging := true } }

/-- The call of `forward_agent` has failed, and with it `cmd_gamed_close` if that is where it was called; the agent that
closes goes on as if it had been answered. -/
def openFailed (s : Gamed) (task : Option Task) : Gamed :=
  match task with
  | none => s
  | some task =>
    match s.recycling.lookup task with
    | some r => { s with recycling := s.recycling.erase task }.send r.agent (.closeDone r.fd)
    | none => s

/-- A message of an agent. -/
def handle (s : Gamed) (agent : Handle) : ToGamed → Gamed
  | .cmdGamedClose id fd => s.cmdGamedClose agent id fd
  | .cmdGamedKick userFd takeover => s.cmdGamedKick agent userFd takeover
  | .answer (.otherLogin takeover) true => s.send agent (.cmdAgentKick takeover)
  | .answer (.kicking takeover) true =>
    { s with info := Function.update s.info takeover.info { s.info takeover.info with kick := some takeover.fd } }
  | .answer (.opening fd task) true => s.opened agent fd task
  | .answer (.closing fd) true => { s with gate := s.gate.remove fd }
  | .answer (.opening _ task) false => s.openFailed task
  | .answer _ false => s

def loginHandler (s : Gamed) (fd : Fd) (id : Id) : Gamed :=
  match s.onlineAccount id with
  | some ref => s.send (s.info ref).agent (.cmdAgentOtherLogin ⟨fd, ref⟩)
  | none => s.forwardAgent fd id none

/-- `dispatch_msg`, and `handler.message` if there is no agent yet. -/
def dispatchMsg (s : Gamed) (fd : Fd) (msg : String) : Gamed :=
  match s.gate.connection fd with
  | none => s
  | some c =>
    match c.agent, s.pendingMsg fd with
    | some agent, _ => s.send agent (.testDispatch msg)
    | none, some queue => { s with pendingMsg := Function.update s.pendingMsg fd (some (queue ++ [msg])) }
    | none, none =>
      { s with
        pendingMsg := Function.update s.pendingMsg fd (some [])
        authenticating := s.authenticating ++ [fd] }

/-- `handler.message` goes on when `do_login` is over. -/
def authenticated (s : Gamed) (fd : Fd) (id : Option Id) : Option Gamed :=
  if fd ∈ s.authenticating then
    let s := { s with authenticating := s.authenticating.erase fd }
    match id with
    | some id => some ({ s with accepted := Function.update s.accepted fd (some id) }.loginHandler fd id)
    | none => some { s with refused := if s.gate.closesClient fd then s.refused ++ [fd] else s.refused }
  else none

/-- The logger answers the handler of a login that was refused. -/
def refusedLogged (s : Gamed) (i : Nat) : Option Gamed :=
  match s.refused[i]? with
  | some fd => some { s with refused := s.refused.eraseIdx i, gate := s.gate.socketClose fd }
  | none => none

def closeFd (s : Gamed) (fd : Fd) : Gamed :=
  match s.gate.connection fd with
  | none => s
  | some c =>
    match c.agent with
    | some agent => s.send agent (.cmdAgentClose fd)
    | none => { s with gate := s.gate.remove fd }

/-- One turn of the loop of `five_sec_tick`. -/
def expire (now : Nat) (s : Gamed) (id : Id) : Gamed :=
  match s.clearPool.lookup id with
  | some pooled =>
    if now > pooled.expireTime then { s.send pooled.agent .selfExit with clearPool := s.clearPool.erase id } else s
  | none => s

def fiveSecTick (s : Gamed) (now : Nat) : Gamed := s.clearPool.keys.foldl (expire now) s

end Gamed

inductive Event where
  | connect (fd : Fd) (addr : String)
  | data (fd : Fd) (msg : String)
  | disconnect (fd : Fd)
  | closed (fd : Fd)
  | authenticated (fd : Fd) (id : Option Id)
  | created (i : Nat)
  | tick (now : Nat)
  | refusedLogged (i : Nat)
  | kicked (agent : Handle) (i : Nat)
  | logged (task : Task) (now : Nat)
  | handle (agent : Handle)
  | receive (agent : Handle) (bad : Bool)
  | resume (agent : Handle) (i : Nat) (ok : Bool)
deriving DecidableEq

def step (s : Gamed) : Event → Option Gamed
  | .connect fd addr =>
    match s.gate.sockets fd with
    | none => some { s with gate := s.gate.msgOpen fd addr }
    | some _ => none
  | .data fd msg => some (s.dispatchMsg fd msg)
  | .disconnect fd => (s.gate.disconnect fd).map fun gate => { s with gate }.closeFd fd
  | .closed fd => (s.gate.closed fd).map fun gate => { s with gate }.closeFd fd
  | .authenticated fd id => s.authenticated fd id
  | .created i => s.created i
  | .tick now => some (s.fiveSecTick now)
  | .refusedLogged i => s.refusedLogged i
  | .kicked a i => s.kicked a i
  | .logged task now => s.logged task now
  | .handle a =>
    match (s.agent a).outbox with
    | msg :: outbox => some ((s.popOutbox a outbox).handle a msg)
    | [] => none
  | .receive a bad => ((s.agent a).receive bad).map fun x => s.setAgent a x
  | .resume a i ok => ((s.agent a).resume i ok).map fun x => s.setAgent a x

end SkynetServer.Game
