import Mathlib.Logic.Function.Basic

/-!
# The gate

The tables of `gateserver.lua` and what its functions do to them, with the sockets under it. The peer of a socket can
close it once, at any time; `socketdriver.close` is answered by a close event, also for a socket that is already closed.
A number of a socket is never used again. `close_fd` of an entry with an agent suspends between reading the entry and
removing it, so it is here in two parts: the entry it reads, and `remove`. `syslog.debugf` calls the logger and suspends
too: `close_client` is its test, `closesClient`, and `socketdriver.close`, and a close event is here the moment in which
`close_fd` is called.
-/

namespace SkynetServer.Game

abbrev Fd := Nat

/-- The address of a service. -/
abbrev Handle := Nat

/-- An entry of `connection`. -/
structure Client where
  addr : String
  agent : Option Handle := none
deriving DecidableEq

/-- A socket: whether its peer can still close it, and the close events that are still to come. -/
structure Socket where
  alive : Bool
  closing : Nat
deriving DecidableEq

structure Gate where
  connection : Fd → Option Client := fun _ => none
  ip : Fd → Option String := fun _ => none
  nclient : Int := 0
  maxclient : Int := 64
  sockets : Fd → Option Socket := fun _ => none

namespace Gate

/-- `socketdriver.close`. -/
def socketClose (gate : Gate) (fd : Fd) : Gate :=
  let socket := (gate.sockets fd).map fun socket => { socket with closing := socket.closing + 1 }
  { gate with sockets := Function.update gate.sockets fd socket }

/-- `MSG.open`, for the socket `fd` that has just been accepted. -/
def msgOpen (gate : Gate) (fd : Fd) (addr : String) : Gate :=
  let gate := { gate with sockets := Function.update gate.sockets fd (some ⟨true, 0⟩) }
  if gate.nclient ≥ gate.maxclient then gate.socketClose fd
  else { gate with
    connection := Function.update gate.connection fd (some { addr })
    ip := Function.update gate.ip fd (some addr)
    nclient := gate.nclient + 1 }

/-- The test of `close_client`. -/
def closesClient (gate : Gate) (fd : Fd) : Bool := (gate.connection fd).isSome

def forward (gate : Gate) (fd : Fd) (agent : Handle) : Gate :=
  match gate.connection fd with
  | some c => { gate with connection := Function.update gate.connection fd (some { c with agent := some agent }) }
  | none => gate

/-- The end of `close_fd`, which writes to the tables whether or not the entry is still there. -/
def remove (gate : Gate) (fd : Fd) : Gate :=
  { gate with
    connection := Function.update gate.connection fd none
    ip := Function.update gate.ip fd none
    nclient := gate.nclient - 1 }

/-- The peer closes the socket. -/
def disconnect (gate : Gate) (fd : Fd) : Option Gate :=
  match gate.sockets fd with
  | some ⟨true, closing⟩ => some { gate with sockets := Function.update gate.sockets fd (some ⟨false, closing⟩) }
  | _ => none

/-- A call of `socketdriver.close` is answered. -/
def closed (gate : Gate) (fd : Fd) : Option Gate :=
  match gate.sockets fd with
  | some ⟨_, closing + 1⟩ => some { gate with sockets := Function.update gate.sockets fd (some ⟨false, closing⟩) }
  | _ => none

/-- The close events for `fd` that are still to come. -/
def closing (gate : Gate) (fd : Fd) : Nat :=
  match gate.sockets fd with
  | some socket => socket.closing
  | none => 0

end Gate

end SkynetServer.Game
