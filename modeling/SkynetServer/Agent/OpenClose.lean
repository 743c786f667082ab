import SkynetServer.Agent.Handler
import SkynetServer.Database.PayInfo
import SkynetServer.Database.ResultInfo
import SkynetServer.Lib.Run

/-!
# Opening and closing an agent

`cmd_agent_open` and `cmd_agent_close` of `agent.lua`, one after the other, with calls to the database that may raise an
error. The dispatcher catches an error of a command, and what the command has written until then stays. `user.CMD` is the
table `CMD` of the agent itself. A command is run with the answers that its calls will get. What is sent to the client and
the days that are compared at the end of `cmd_agent_open` change nothing here.
-/

namespace SkynetServer.Handlers

open Database (Pay Record)
open Lib

/-- The names of the methods. -/
inductive Name where
  | testDispatch | getRoleInfo | cmdAgentOpen | cmdAgentClose | cmdAgentOtherLogin | cmdAgentKick | onNewDayCome | selfExit
  | onNewDayComeRole | setPayInfo | checkPayInfo | getTabId | saveResultInfo
  | getLearnInfo | getGradeInfo | getMoudleInfo | heartbeat | gmAddMoney | sendLearnResultInfo | getResultInfo | payCourse
deriving DecidableEq

/-- A method is the function of its name in its module. -/
inductive Module where
  | agent | role | gm | record | pay
deriving DecidableEq

abbrev Table := List (Name × Module)

def Module.table (mod : Module) (names : List Name) : Table := names.map fun name => (name, mod)

structure Handler where
  rpc : Table
  cmd : Option Table

def roleHandler : Handler where
  rpc := Module.role.table [.getLearnInfo, .getGradeInfo, .getMoudleInfo, .heartbeat]
  cmd := some (Module.role.table [.onNewDayComeRole, .setPayInfo, .checkPayInfo, .getTabId])

def gmHandler : Handler where
  rpc := Module.gm.table [.gmAddMoney]
  cmd := none

def record : Handler where
  rpc := Module.record.table [.sendLearnResultInfo, .getResultInfo]
  cmd := some (Module.record.table [.saveResultInfo])

def payHandler : Handler where
  rpc := Module.pay.table [.payCourse]
  cmd := some []

/-- The methods of the agent itself. -/
def initialCmd : Methods Name Module := fun name =>
  if name ∈ [.testDispatch, .getRoleInfo, .cmdAgentOpen, .cmdAgentClose, .cmdAgentOtherLogin, .cmdAgentKick, .onNewDayCome,
    .selfExit] then some .agent else none

structure Info where
  firstLogin : Bool
  isTraveler : Bool
deriving DecidableEq

structure User where
  fd : Nat
  account : Nat
  session : Option Nat
  info : Info
  rpc : Methods Name Module

/-- The variables of `agent.lua`, and those of the modules `role_handler` and `record` that their `login` sets. -/
structure Agent where
  user : Option User := none
  cmd : Methods Name Module := initialCmd
  payInfo : Option (List Pay) := none
  info : Option (List Record) := none

inductive Fault where
  /-- A call to the database raises an error. -/
  | call
  /-- A field of `nil`, or `next(nil)`. -/
  | nil
  /-- The assertion of `merge_safe`. -/
  | duplicate
deriving DecidableEq

/-- What a call to the database brings. -/
inductive Reply (α : Type) where
  | raises
  | returns (value : α)

/-- The replies to the calls of a command. -/
structure Calls where
  loadInfo : Reply (Option Info)
  loadTraveler : Reply (Option Info)
  getPayInfo : Reply (Option (List Pay))
  getResultInfo : Reply (Option (List Record))
  saveResultInfo : Reply Unit
  saveRoleLogout : Reply Unit

/-- A command, which keeps what it has written when it fails. -/
abbrev Command := EStateM Fault Agent

def call {α : Type} (reply : Reply α) : Command α := fun x =>
  match reply with
  | .raises => .error .call x
  | .returns value => .ok value x

@[simp] theorem bind_apply {α β : Type} (m : Command α) (f : α → Command β) (x : Agent) :
    (m >>= f) x = match m x with
      | .ok a x => f a x
      | .error fault x => .error fault x := by
  change EStateM.bind m f x = _
  rw [EStateM.bind]
  cases m x <;> rfl

@[simp] theorem pure_apply {α : Type} (a : α) (x : Agent) : (pure a : Command α) x = .ok a x := rfl

@[simp] theorem get_apply (x : Agent) : (get : Command Agent) x = .ok x x := rfl

@[simp] theorem modify_apply (f : Agent → Agent) (x : Agent) : (modify f : Command Unit) x = .ok () (f x) := rfl

@[simp] theorem throw_apply {α : Type} (fault : Fault) (x : Agent) : (throw fault : Command α) x = .error fault x := rfl

section

variable (pairs : Pairs Name Module)

/-- `handler:register` with the table of the user; the functions given to `init` only keep a reference to the user. -/
def Handler.register (handler : Handler) : Command Unit := fun x =>
  match x.user with
  | none => .error .nil x
  | some user =>
    let (rpc, ok) := mergeSafe pairs user.rpc (some handler.rpc)
    let x := { x with user := some { user with rpc } }
    if ok then
      let (cmd, ok) := mergeSafe pairs x.cmd handler.cmd
      let x := { x with cmd }
      if ok then .ok () x else .error .duplicate x
    else .error .duplicate x

def Handler.unregister (handler : Handler) : Command Unit := fun x =>
  match x.user with
  | none => .error .nil x
  | some user =>
    .ok () { x with
      user := some { user with rpc := clean pairs user.rpc (some handler.rpc) }
      cmd := clean pairs x.cmd handler.cmd }

def registerHandler : Command Unit := do
  roleHandler.register pairs
  gmHandler.register pairs
  record.register pairs
  payHandler.register pairs

def unregisterHandler : Command Unit := do
  gmHandler.unregister pairs
  roleHandler.unregister pairs
  record.unregister pairs
  payHandler.unregister pairs

end

def loginHandler (calls : Calls) : Command Unit := do
  let payInfo ← call calls.getPayInfo
  modify fun x => { x with payInfo }
  let info ← call calls.getResultInfo
  modify fun x => { x with info }

/-- The information that `cmd_agent_open` loads. -/
def load (calls : Calls) : Command Info := do
  match ← call calls.loadInfo with
  | some info => pure info
  | none =>
    match ← call calls.loadTraveler with
    | some info => pure { info with isTraveler := true }
    | none => throw .nil

def cmdAgentOpen (pairs : Pairs Name Module) (fd id : Nat) (session : Option Nat) (calls : Calls) : Command Unit := do
  let info ← load calls
  modify fun x => { x with user := some { fd, account := id, session, info, rpc := fun _ => none } }
  registerHandler pairs
  loginHandler calls
  modify fun x => { x with user := x.user.map fun user => { user with info := { user.info with firstLogin := false } } }

/-- `save_data` with `CMD.SaveResultInfo` of `record`. -/
def saveData (calls : Calls) : Command Unit := fun x =>
  match x.user, x.cmd .saveResultInfo, x.info with
  | some _, some _, some [] => .ok () x
  | some _, some _, some (_ :: _) => call calls.saveResultInfo x
  | _, _, _ => .error .nil x

def cmdAgentClose (pairs : Pairs Name Module) (calls : Calls) : Command Unit := do
  saveData calls
  let x ← get
  let isTraveler := (x.user.map (·.info.isTraveler)).getD false
  unregisterHandler pairs
  modify fun x => { x with user := none }
  if isTraveler then pure () else call calls.saveRoleLogout

/-- The calls of an agent. -/
inductive Event where
  | cmdAgentOpen (fd id : Nat) (session : Option Nat) (calls : Calls)
  | cmdAgentClose (calls : Calls)

def Event.command (pairs : Pairs Name Module) : Event → Command Unit
  | .cmdAgentOpen fd id session calls => Handlers.cmdAgentOpen pairs fd id session calls
  | .cmdAgentClose calls => Handlers.cmdAgentClose pairs calls

/-- The agent after a command, and the error that the dispatcher has caught. -/
def dispatch (pairs : Pairs Name Module) (x : Agent) (event : Event) : Agent × Option Fault :=
  match event.command pairs x with
  | .ok _ x => (x, none)
  | .error fault x => (x, some fault)

def step (pairs : Pairs Name Module) (x : Agent) (event : Event) : Option Agent := some (dispatch pairs x event).1

/-! ### Open or closed -/

def handlers : List Handler := [roleHandler, gmHandler, record, payHandler]

def FullyOpen (x : Agent) : Prop :=
  ∃ user, x.user = some user ∧ ∀ handler ∈ handlers,
    (∀ entry ∈ handler.rpc, user.rpc entry.1 = some entry.2) ∧ ∀ entry ∈ handler.cmd.getD [], x.cmd entry.1 = some entry.2

def FullyClosed (x : Agent) : Prop := x.user = none ∧ x.cmd = initialCmd

/-- The call leaves the agent open or closed, and does not find the entries of a handler in the way. -/
def Survives (pairs : Pairs Name Module) (x : Agent) (event : Event) : Prop :=
  (FullyOpen (dispatch pairs x event).1 ∨ FullyClosed (dispatch pairs x event).1) ∧
    (dispatch pairs x event).2 ≠ some .duplicate

/-- The database has the information of the account, or else that of the traveler. -/
def Calls.Finds (calls : Calls) : Prop :=
  (∃ info, calls.loadInfo = .returns (some info)) ∨
    calls.loadInfo = .returns none ∧ ∃ info, calls.loadTraveler = .returns (some info)

/-- An agent that has a user is opened only with calls that do not find the information. -/
def Fits (x : Agent) : Event → Prop
  | .cmdAgentOpen _ _ _ calls => calls.Finds → x.user = none
  | .cmdAgentClose _ => True

/-- The handlers are merged into the tables, and nothing else is. -/
structure Registered (handlers : List Handler) (x : Agent) : Prop where
  rpc : ∃ user, x.user = some user ∧ Merged (fun _ => none) (handlers.flatMap Handler.rpc) user.rpc
  cmd : Merged initialCmd (handlers.flatMap fun handler => handler.cmd.getD []) x.cmd

/-- What is true of an agent between two calls, as long as it survives. -/
def Settled (x : Agent) : Prop := Registered handlers x ∨ FullyClosed x

theorem Registered.fullyOpen {x : Agent} (h : Registered handlers x) : FullyOpen x := by
  obtain ⟨⟨user, huser, hrpc⟩, hcmd⟩ := h
  refine ⟨user, huser, fun handler hmem => ⟨fun entry hentry => ?_, fun entry hentry => ?_⟩⟩
  · exact hrpc.entry entry (List.mem_flatMap.mpr ⟨handler, hmem, hentry⟩)
  · exact hcmd.entry entry (List.mem_flatMap.mpr ⟨handler, hmem, hentry⟩)

section

variable (pairs : Pairs Name Module)

theorem Registered.register {registered : List Handler} {x : Agent} (h : Registered registered x) (handler : Handler)
    (hrpc : (((registered ++ [handler]).flatMap Handler.rpc).map Prod.fst).Nodup)
    (hcmd : (((registered ++ [handler]).flatMap fun handler => handler.cmd.getD []).map Prod.fst).Nodup)
    (hinitial : ∀ k ∈ (handler.cmd.getD []).map Prod.fst, initialCmd k = none) :
    ∃ x', handler.register pairs x = .ok () x' ∧ Registered (registered ++ [handler]) x' ∧ x'.info = x.info := by
  obtain ⟨⟨user, huser, hmerged⟩, hmergedCmd⟩ := h
  simp only [List.flatMap_append, List.flatMap_singleton, List.map_append, List.nodup_append'] at hrpc hcmd
  obtain ⟨rpc, hrpc', hmerged'⟩ := mergeSafe_of_free pairs (some handler.rpc) hrpc.2.1
    fun k hk => hmerged.rest k fun hk' => hrpc.2.2 hk' hk
  obtain ⟨cmd, hcmd', hmergedCmd'⟩ := mergeSafe_of_free pairs handler.cmd hcmd.2.1
    fun k hk => (hmergedCmd.rest k fun hk' => hcmd.2.2 hk' hk).trans (hinitial k hk)
  refine ⟨{ x with user := some { user with rpc }, cmd }, ?_, ⟨⟨_, rfl, ?_⟩, ?_⟩, rfl⟩
  · simp [Handler.register, huser, hrpc', hcmd']
  · rw [List.flatMap_append, List.flatMap_singleton]
    exact hmerged.append hmerged' fun k hk hk' => hrpc.2.2 hk hk'
  · rw [List.flatMap_append, List.flatMap_singleton]
    exact hmergedCmd.append hmergedCmd' fun k hk hk' => hcmd.2.2 hk hk'

theorem registerHandler_of_initial (x : Agent) {user : User} (huser : x.user = some user)
    (hrpc : user.rpc = fun _ => none) (hcmd : x.cmd = initialCmd) :
    ∃ x', registerHandler pairs x = .ok () x' ∧ Registered handlers x' ∧ x'.info = x.info := by
  have hnone : Registered [] x := ⟨⟨user, huser, by simp, fun k _ => by rw [hrpc]⟩, by simp, fun k _ => by rw [hcmd]⟩
  obtain ⟨x₁, hrole, hreg₁, hinfo₁⟩ := hnone.register pairs roleHandler (by decide) (by decide) (by decide)
  obtain ⟨x₂, hgm, hreg₂, hinfo₂⟩ := hreg₁.register pairs gmHandler (by decide) (by decide) (by decide)
  obtain ⟨x₃, hrecord, hreg₃, hinfo₃⟩ := hreg₂.register pairs record (by decide) (by decide) (by decide)
  obtain ⟨x₄, hpay, hreg₄, hinfo₄⟩ := hreg₃.register pairs payHandler (by decide) (by decide) (by decide)
  refine ⟨x₄, ?_, hreg₄, by rw [hinfo₄, hinfo₃, hinfo₂, hinfo₁]⟩
  simp [registerHandler, hrole, hgm, hrecord, hpay]

/-- With the handlers of another user in the way, the new user gets no more than the methods of `role_handler`. -/
theorem registerHandler_of_registered (x : Agent) {user : User} (huser : x.user = some user)
    (hrpc : user.rpc = fun _ => none) (hcmd : ∀ entry ∈ roleHandler.cmd.getD [], (x.cmd entry.1).isSome) :
    ∃ rpc, registerHandler pairs x = .error .duplicate { x with user := some { user with rpc } } ∧
      rpc .gmAddMoney = none := by
  obtain ⟨rpc, hmerge, hmerged⟩ := mergeSafe_of_free pairs (some roleHandler.rpc) (by decide)
    fun k _ => congrFun hrpc k
  have htaken : mergeSafe pairs x.cmd roleHandler.cmd = (x.cmd, false) := by
    refine mergeSafe_of_taken pairs (by decide) fun k hk => ?_
    obtain ⟨entry, hentry, rfl⟩ := List.mem_map.mp hk
    exact hcmd entry hentry
  refine ⟨rpc, ?_, ?_⟩
  · simp [registerHandler, Handler.register, huser, hmerge, htaken]
  · rw [hmerged.rest .gmAddMoney (by decide), hrpc]

/-- The calls of `login_handler` change neither the user nor the methods, whether they raise an error or not. -/
theorem loginHandler_cases (calls : Calls) (x : Agent) :
    (∃ payInfo info, calls.getPayInfo = .returns payInfo ∧ calls.getResultInfo = .returns info ∧
      loginHandler calls x = .ok () { x with payInfo, info }) ∨
      ∃ payInfo, loginHandler calls x = .error .call { x with payInfo } := by
  cases hpay : calls.getPayInfo with
  | raises => exact .inr ⟨x.payInfo, by simp [loginHandler, call, hpay]⟩
  | returns payInfo =>
    cases hresult : calls.getResultInfo with
    | raises => exact .inr ⟨payInfo, by simp [loginHandler, call, hpay, hresult]⟩
    | returns info => exact .inl ⟨payInfo, info, rfl, rfl, by simp [loginHandler, call, hpay, hresult]⟩

theorem load_cases (calls : Calls) :
    (calls.Finds ∧ ∃ info, ∀ x, load calls x = .ok info x) ∨
      ¬ calls.Finds ∧ ∃ fault, fault ≠ .duplicate ∧ ∀ x, load calls x = .error fault x := by
  unfold Calls.Finds
  cases hinfo : calls.loadInfo with
  | raises => exact .inr ⟨by simp, .call, by decide, fun x => by simp [load, call, hinfo]⟩
  | returns found =>
    cases found with
    | some info => exact .inl ⟨by simp, info, fun x => by simp [load, call, hinfo]⟩
    | none =>
      cases htraveler : calls.loadTraveler with
      | raises => exact .inr ⟨by simp, .call, by decide, fun x => by simp [load, call, hinfo, htraveler]⟩
      | returns found =>
        cases found with
        | some info => exact .inl ⟨by simp, { info with isTraveler := true }, fun x => by
            simp [load, call, hinfo, htraveler]⟩
        | none => exact .inr ⟨by simp, .nil, by decide, fun x => by simp [load, call, hinfo, htraveler]⟩

/-! ### The two commands -/

theorem dispatch_of_not_finds {calls : Calls} (hfinds : ¬ calls.Finds) (x : Agent) (fd id : Nat) (session : Option Nat) :
    ∃ fault, fault ≠ .duplicate ∧ dispatch pairs x (.cmdAgentOpen fd id session calls) = (x, some fault) := by
  obtain ⟨hfound, -⟩ | ⟨-, fault, hne, hload⟩ := load_cases calls
  · exact absurd hfound hfinds
  · exact ⟨fault, hne, by simp [dispatch, Event.command, cmdAgentOpen, hload]⟩

/-- A closed agent is open after `cmd_agent_open`, even if a call of `login_handler` has raised an error. -/
theorem FullyClosed.cmdAgentOpen {x : Agent} (h : FullyClosed x) {calls : Calls} (hfinds : calls.Finds) (fd id : Nat)
    (session : Option Nat) :
    Registered handlers (dispatch pairs x (.cmdAgentOpen fd id session calls)).1 ∧
      (dispatch pairs x (.cmdAgentOpen fd id session calls)).2 ≠ some .duplicate := by
  obtain ⟨-, info, hload⟩ | ⟨hnot, -⟩ := load_cases calls
  · obtain ⟨x₁, hregister, hreg, -⟩ := registerHandler_of_initial pairs
      { x with user := some { fd, account := id, session, info, rpc := fun _ => none } } rfl rfl h.2
    obtain ⟨⟨user, huser, hrpc⟩, hcmd⟩ := hreg
    obtain ⟨payInfo, info, -, -, hlogin⟩ | ⟨payInfo, hlogin⟩ := loginHandler_cases calls x₁
    · simp only [dispatch, Event.command, Handlers.cmdAgentOpen, bind_apply, modify_apply, hload, hregister, hlogin]
      exact ⟨⟨⟨_, congrArg (Option.map _) huser, hrpc⟩, hcmd⟩, by simp⟩
    · simp only [dispatch, Event.command, Handlers.cmdAgentOpen, bind_apply, modify_apply, hload, hregister, hlogin]
      exact ⟨⟨⟨user, huser, hrpc⟩, hcmd⟩, by simp⟩
  · exact absurd hfinds hnot

/-- Opening an open agent leaves it with a user that has only the methods of `role_handler`. -/
theorem Registered.cmdAgentOpen {x : Agent} (h : Registered handlers x) {calls : Calls} (hfinds : calls.Finds) (fd id : Nat)
    (session : Option Nat) :
    ∃ user, dispatch pairs x (.cmdAgentOpen fd id session calls) = ({ x with user := some user }, some .duplicate) ∧
      user.rpc .gmAddMoney = none := by
  obtain ⟨-, info, hload⟩ | ⟨hnot, -⟩ := load_cases calls
  · obtain ⟨rpc, hregister, hgm⟩ := registerHandler_of_registered pairs
      { x with user := some { fd, account := id, session, info, rpc := fun _ => none } } rfl rfl fun entry hentry => by
        rw [h.cmd.entry entry (List.mem_flatMap.mpr ⟨roleHandler, by simp [handlers], hentry⟩)]
        rfl
    exact ⟨{ fd, account := id, session, info, rpc }, by
      simp [dispatch, Event.command, Handlers.cmdAgentOpen, hload, hregister], hgm⟩
  · exact absurd hfinds hnot

theorem saveData_cases (calls : Calls) (x : Agent) :
    ((∃ user, x.user = some user) ∧ saveData calls x = .ok () x) ∨
      ∃ fault, fault ≠ .duplicate ∧ saveData calls x = .error fault x := by
  unfold saveData
  split
  · rename_i user _ huser _ _
    exact .inl ⟨⟨user, huser⟩, rfl⟩
  · rename_i user _ _ _ huser _ _
    cases hsave : calls.saveResultInfo with
    | raises => exact .inr ⟨.call, by decide, rfl⟩
    | returns _ => exact .inl ⟨⟨user, huser⟩, rfl⟩
  · exact .inr ⟨.nil, by decide, rfl⟩

theorem unregisterHandler_apply {x : Agent} {user : User} (huser : x.user = some user) :
    ∃ user', unregisterHandler pairs x = .ok () { x with user := some user', cmd := clean pairs (clean pairs
      (clean pairs (clean pairs x.cmd gmHandler.cmd) roleHandler.cmd) record.cmd) payHandler.cmd } := by
  simp [unregisterHandler, Handler.unregister, huser]

theorem Registered.clean {x : Agent} (h : Registered handlers x) :
    Handlers.clean pairs (Handlers.clean pairs (Handlers.clean pairs (Handlers.clean pairs x.cmd gmHandler.cmd)
      roleHandler.cmd) record.cmd) payHandler.cmd = initialCmd := by
  funext k
  simp only [clean_apply]
  cases k <;> first | rfl | exact h.cmd.rest _ (by decide)

/-- A `cmd_agent_close` fails before it has changed anything, or closes the agent. -/
theorem Settled.cmdAgentClose {x : Agent} (h : Settled x) (calls : Calls) :
    Settled (dispatch pairs x (.cmdAgentClose calls)).1 ∧
      (dispatch pairs x (.cmdAgentClose calls)).2 ≠ some .duplicate := by
  obtain ⟨⟨user, huser⟩, hsave⟩ | ⟨fault, hne, hsave⟩ := saveData_cases calls x
  · rcases h with h | h
    · obtain ⟨user', hunregister⟩ := unregisterHandler_apply pairs huser
      rw [h.clean pairs] at hunregister
      have hclosed : FullyClosed { x with user := none, cmd := initialCmd } := ⟨rfl, rfl⟩
      cases htraveler : user.info.isTraveler with
      | true =>
        simp only [dispatch, Event.command, Handlers.cmdAgentClose, bind_apply, get_apply, modify_apply, hsave, hunregister]
        simp [huser, htraveler, Settled, hclosed]
      | false =>
        cases hlogout : calls.saveRoleLogout <;>
          simp [dispatch, Event.command, Handlers.cmdAgentClose, hsave, hunregister, huser, htraveler, call, hlogout, Settled,
            hclosed]
    · rw [h.1] at huser
      cases huser
  · simp [dispatch, Event.command, Handlers.cmdAgentClose, hsave, h, hne]

theorem Settled.fullyOpen_or_fullyClosed {x : Agent} (h : Settled x) : FullyOpen x ∨ FullyClosed x :=
  h.imp_left Registered.fullyOpen

theorem Settled.dispatch {x : Agent} (h : Settled x) {event : Event} (hfits : Fits x event) :
    Settled (dispatch pairs x event).1 ∧ (dispatch pairs x event).2 ≠ some .duplicate := by
  cases event with
  | cmdAgentClose calls => exact h.cmdAgentClose pairs calls
  | cmdAgentOpen fd id session calls =>
    by_cases hfinds : calls.Finds
    · have huser : x.user = none := hfits hfinds
      rcases h with h | h
      · obtain ⟨⟨user, hsome, -⟩, -⟩ := h
        rw [huser] at hsome
        cases hsome
      · exact (h.cmdAgentOpen pairs hfinds fd id session).imp_left .inl
    · obtain ⟨fault, hne, hdispatch⟩ := dispatch_of_not_finds pairs hfinds x fd id session
      rw [hdispatch]
      exact ⟨h, by simpa using hne⟩

theorem Settled.survives_iff {x : Agent} (h : Settled x) (event : Event) : Survives pairs x event ↔ Fits x event := by
  constructor
  · rintro ⟨-, hfault⟩
    cases event with
    | cmdAgentClose calls => trivial
    | cmdAgentOpen fd id session calls =>
      intro hfinds
      rcases h with h | h
      · obtain ⟨user, hdispatch, -⟩ := h.cmdAgentOpen pairs hfinds fd id session
        rw [hdispatch] at hfault
        exact absurd rfl hfault
      · exact h.1
  · intro hfits
    obtain ⟨hsettled, hfault⟩ := h.dispatch pairs hfits
    exact ⟨hsettled.fullyOpen_or_fullyClosed, hfault⟩

end

/-- **Through any calls of an agent, whatever its calls to the database bring, it is open or closed after each of them and
none finds the methods of a handler in its way, exactly when no call opens it while it has a user.** -/
theorem survives_iff_fits (pairs : Pairs Name Module) (events : List Event) :
    Along (step pairs) (Survives pairs) {} events ↔ Along (step pairs) Fits {} events := by
  refine along_congr (fun x event (h : Settled x) => h.survives_iff pairs event) ?_ (.inr ⟨rfl, rfl⟩)
  intro x event x' h hsurvives hstep
  obtain rfl := Option.some.inj hstep
  exact (h.dispatch pairs ((h.survives_iff pairs event).mp hsurvives)).1

/-- After a failed login the agent cannot be opened, and has a user without most of the methods. -/
theorem not_survives_failed_login :
    ¬ Along (step ⟨id, fun _ => .refl _⟩) (Survives ⟨id, fun _ => .refl _⟩) {}
      [.cmdAgentOpen 1 7 none ⟨.returns (some ⟨false, false⟩), .raises, .raises, .raises, .raises, .raises⟩,
        .cmdAgentOpen 2 7 none ⟨.returns (some ⟨false, false⟩), .raises, .returns (some []), .returns (some []), .raises,
          .raises⟩] := by
  intro hall
  obtain ⟨⟨user, huser, hmethods⟩ | ⟨hnone, -⟩, -⟩ := hall [_] _ ⟨[], rfl⟩ _ rfl
  · have hgm := (hmethods gmHandler (by simp [handlers])).1 (.gmAddMoney, .gm) List.mem_cons_self
    obtain rfl := Option.some.inj huser
    exact absurd hgm (by decide)
  · exact Option.some_ne_none _ hnone

/-! ### An agent that is neither opened nor closed any more -/

/-- The agent has a user and the methods of `role_handler`, and `record` has not loaded anything. -/
structure Stuck (x : Agent) : Prop where
  user : x.user.isSome
  info : x.info = none
  cmd : ∀ entry ∈ roleHandler.cmd.getD [], (x.cmd entry.1).isSome

theorem Stuck.dispatch {x : Agent} (h : Stuck x) (pairs : Pairs Name Module) (event : Event) :
    Stuck (dispatch pairs x event).1 := by
  cases event with
  | cmdAgentClose calls =>
    have hsave : saveData calls x = .error .nil x := by
      simp [saveData, h.info]
    simpa [Handlers.dispatch, Event.command, cmdAgentClose, hsave] using h
  | cmdAgentOpen fd id session calls =>
    obtain ⟨-, info, hload⟩ | ⟨hnot, -⟩ := load_cases calls
    · obtain ⟨rpc, hregister, -⟩ := registerHandler_of_registered pairs
        { x with user := some { fd, account := id, session, info, rpc := fun _ => none } } rfl rfl h.cmd
      simp only [Handlers.dispatch, Event.command, cmdAgentOpen, bind_apply, modify_apply, hload, hregister]
      exact ⟨rfl, h.info, h.cmd⟩
    · obtain ⟨fault, -, hdispatch⟩ := dispatch_of_not_finds pairs hnot x fd id session
      rw [hdispatch]
      exact h

theorem stuck_of_failed_login (pairs : Pairs Name Module) {calls : Calls} (hfinds : calls.Finds)
    (hlogin : calls.getPayInfo = .raises ∨ calls.getResultInfo = .raises) (fd id : Nat) (session : Option Nat) :
    Stuck (dispatch pairs {} (.cmdAgentOpen fd id session calls)).1 := by
  obtain ⟨-, info, hload⟩ | ⟨hnot, -⟩ := load_cases calls
  · obtain ⟨x₁, hregister, hreg, hinfo⟩ := registerHandler_of_initial pairs
      { user := some { fd, account := id, session, info, rpc := fun _ => none } } rfl rfl rfl
    obtain ⟨payInfo, results, hpay, hresults, -⟩ | ⟨payInfo, hfailed⟩ := loginHandler_cases calls x₁
    · rw [hpay, hresults] at hlogin
      rcases hlogin with hlogin | hlogin <;> cases hlogin
    · obtain ⟨⟨user, huser, -⟩, hcmd⟩ := hreg
      simp only [dispatch, Event.command, cmdAgentOpen, bind_apply, modify_apply, hload, hregister, hfailed]
      refine ⟨by simp [huser], hinfo, fun entry hentry => ?_⟩
      simp [hcmd.entry entry (List.mem_flatMap.mpr ⟨roleHandler, by simp [handlers], hentry⟩)]
  · exact absurd hfinds hnot

/-- **An agent whose first login has failed is never opened or closed again, whatever is called.** -/
theorem stuck_run (pairs : Pairs Name Module) {x x' : Agent} (h : Stuck x) {events : List Event}
    (hrun : run (step pairs) x events = some x') : Stuck x' := by
  have hany : Along (step pairs) (fun _ _ => True) x events := fun _ _ _ _ _ => trivial
  refine run_invariant (fun x event x' (h : Stuck x) _ hstep => ?_) h hany hrun
  obtain rfl := Option.some.inj hstep
  exact h.dispatch pairs event

end SkynetServer.Handlers
