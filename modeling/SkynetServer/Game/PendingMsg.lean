import SkynetServer.Game.Connections

/-!
# Messages around a login

`gameserver.lua` over `gateserver.lua`, with the end of `forward_agent`. The first message of a client is its login; what
comes in until the client is forwarded is kept in `pending_msg`, and what comes in afterwards is sent to the agent. The
loop of `deal_pending_msg` writes a line to the log for each message that it is to forward and sends none of them, so a
client has to be silent from its login message to `forward`. `arrived` and `sent` are the messages that have come in for
an entry and those that have gone out, in their order. Whatever else happens to the gate may happen in between.
-/

namespace SkynetServer.Game

open Lib

structure Gameserver where
  server : Gateserver := {}
  pendingMsg : Fd → Option (List String) := fun _ => none
  /-- The clients that wait in `auth_handler`. -/
  authenticating : List Fd := []
  /-- The clients that `auth_handler` has accepted. -/
  accepted : List Fd := []
  arrived : List (Fd × String) := []
  sent : List (Fd × Handle × String) := []

namespace Gameserver

/-- `dispatch_msg`, and `handler.message` if there is no agent yet. A message without an entry is an error. -/
def dispatchMsg (s : Gameserver) (fd : Fd) (msg : String) : Gameserver :=
  match s.server.gate.connection fd with
  | none => s
  | some c =>
    let s := { s with arrived := s.arrived ++ [(fd, msg)] }
    match c.agent, s.pendingMsg fd with
    | some agent, _ => { s with sent := s.sent ++ [(fd, agent, msg)] }
    | none, some queue => { s with pendingMsg := Function.update s.pendingMsg fd (some (queue ++ [msg])) }
    | none, none =>
      { s with
        pendingMsg := Function.update s.pendingMsg fd (some [])
        authenticating := s.authenticating ++ [fd] }

/-- `dispatch_queue`, which goes on with the next message when one is an error or waits. -/
def dispatchQueue (s : Gameserver) (queue : List (Fd × String)) : Gameserver :=
  queue.foldl (fun s msg => s.dispatchMsg msg.1 msg.2) s

/-- `handler.message` goes on when `do_login` is over. -/
def authenticated (s : Gameserver) (fd : Fd) (ok : Bool) : Option Gameserver :=
  if fd ∈ s.authenticating then
    let s := { s with authenticating := s.authenticating.erase fd }
    if ok then some { s with accepted := s.accepted ++ [fd] } else some { s with server := s.server.closeClient fd }
  else none

/-- The loop over the queue only writes to the log. -/
def dealPendingMsg (s : Gameserver) (fd : Fd) : Gameserver :=
  match s.pendingMsg fd with
  | none => s
  | some _ => { s with pendingMsg := Function.update s.pendingMsg fd none }

/-- The end of `forward_agent`. -/
def forward (s : Gameserver) (fd : Fd) (agent : Handle) : Gameserver :=
  let s := s.dealPendingMsg fd
  { s with server := { s.server with gate := s.server.gate.forward fd agent } }

inductive Event where
  | socket (event : Gateserver.Event)
  | data (fd : Fd) (msg : String)
  | more (queue : List (Fd × String))
  | authenticated (fd : Fd) (ok : Bool)
  | forward (fd : Fd) (agent : Handle)
deriving DecidableEq

/-- `gamed` forwards only clients that it has accepted. -/
def step (s : Gameserver) : Event → Option Gameserver
  | .socket (.forward _ _) => none
  | .socket event => (s.server.step event).map fun server => { s with server }
  | .data fd msg => some (s.dispatchMsg fd msg)
  | .more queue => some (s.dispatchQueue queue)
  | .authenticated fd ok => s.authenticated fd ok
  | .forward fd agent => if fd ∈ s.accepted then some (s.forward fd agent) else none

/-! ### The messages of a client -/

/-- What a list has for a client. -/
def messages {α : Type} (fd : Fd) (log : List (Fd × α)) : List α :=
  log.filterMap fun entry => if entry.1 = fd then some entry.2 else none

@[simp] theorem messages_nil {α : Type} (fd : Fd) : messages fd ([] : List (Fd × α)) = [] := rfl

@[simp] theorem messages_snoc_self {α : Type} (fd : Fd) (log : List (Fd × α)) (msg : α) :
    messages fd (log ++ [(fd, msg)]) = messages fd log ++ [msg] := by
  simp [messages]

theorem messages_snoc_of_ne {α : Type} {fd fd' : Fd} (h : fd' ≠ fd) (log : List (Fd × α)) (msg : α) :
    messages fd (log ++ [(fd', msg)]) = messages fd log := by
  simp [messages, h]

/-- The messages of a client after its login message. -/
def afterLogin (s : Gameserver) (fd : Fd) : List String := (messages fd s.arrived).tail

/-- If the client is forwarded to an agent, then the messages after its login message have been sent to this agent, each
of them once and in the order in which they have come in, and nothing else has been sent. -/
def Delivered (fd : Fd) (s : Gameserver) : Prop :=
  ∀ c a, s.server.gate.connection fd = some c → c.agent = some a →
    messages fd s.sent = (s.afterLogin fd).map fun msg => (a, msg)

/-- The condition on the state before an event: when the client is forwarded, either no message has come in after its
login message, or it is forwarded to this agent already. -/
def Silent (fd : Fd) (s : Gameserver) : Event → Prop
  | .forward fd' a => fd' = fd → fd ∈ s.accepted → ∀ c, s.server.gate.connection fd = some c →
    c.agent = some a ∨ s.afterLogin fd = []
  | _ => True

/-! ### Steps -/

/-- What is known of a client as long as it is silent when it has to be. -/
structure Relayed (fd : Fd) (s : Gameserver) : Prop where
  fresh : s.server.gate.sockets fd = none → s.server.gate.connection fd = none ∧ s.pendingMsg fd = none ∧
    messages fd s.arrived = [] ∧ messages fd s.sent = [] ∧ fd ∉ s.authenticating ∧ fd ∉ s.accepted
  /-- The client is not forwarded, and its login message has not come in. -/
  before : ∀ c, s.server.gate.connection fd = some c → c.agent = none → s.pendingMsg fd = none →
    messages fd s.arrived = [] ∧ messages fd s.sent = [] ∧ fd ∉ s.authenticating ∧ fd ∉ s.accepted
  /-- The client is not forwarded, and its login message has come in. -/
  waiting : ∀ c queue, s.server.gate.connection fd = some c → c.agent = none → s.pendingMsg fd = some queue →
    messages fd s.arrived ≠ [] ∧ messages fd s.sent = []
  forwarded : ∀ c a, s.server.gate.connection fd = some c → c.agent = some a →
    messages fd s.arrived ≠ [] ∧ messages fd s.sent = (s.afterLogin fd).map fun msg => (a, msg)

theorem relayed_init (fd : Fd) (maxclient : Int) : Relayed fd { server := { gate := { maxclient } } } where
  fresh := fun _ => ⟨rfl, rfl, rfl, rfl, List.not_mem_nil, List.not_mem_nil⟩
  before := fun _ h => by cases h
  waiting := fun _ _ h => by cases h
  forwarded := fun _ _ h => by cases h

end Gameserver

/-- What the events of the gate other than `forward` do to an entry: they leave it, they remove it, or they make it. -/
theorem Gateserver.connection_step {s s' : Gateserver} {event : Gateserver.Event}
    (hevent : ∀ fd agent, event ≠ .forward fd agent) (h : s.step event = some s') (fd : Fd) :
    (s'.gate.sockets fd = none → s.gate.sockets fd = none) ∧
      (s'.gate.connection fd = s.gate.connection fd ∨ s'.gate.connection fd = none ∨
        (s.gate.sockets fd = none ∧ s'.gate.sockets fd ≠ none ∧ ∃ c, s'.gate.connection fd = some c ∧ c.agent = none)) := by
  have hremove : ∀ fd', (s.gate.remove fd').connection fd = s.gate.connection fd ∨
      (s.gate.remove fd').connection fd = none := by
    intro fd'
    by_cases heq : fd = fd'
    · subst heq
      exact .inr (Function.update_self _ _ _)
    · exact .inl (Function.update_of_ne heq _ _)
  have hclose : ∀ fd', ((s.closeFd fd').gate.sockets fd = none → s.gate.sockets fd = none) ∧
      ((s.closeFd fd').gate.connection fd = s.gate.connection fd ∨ (s.closeFd fd').gate.connection fd = none) := by
    intro fd'
    unfold Gateserver.closeFd
    split
    · exact ⟨fun hnone => hnone, .inl rfl⟩
    · split
      · exact ⟨fun hnone => hnone, .inl rfl⟩
      · exact ⟨fun hnone => hnone, hremove fd'⟩
  cases event with
  | msgOpen fd' addr =>
    simp only [Gateserver.step] at h
    split at h
    · rename_i hfd'
      obtain rfl := Option.some.inj h
      by_cases heq : fd = fd'
      · subst heq
        refine ⟨fun _ => hfd', ?_⟩
        simp only [Gate.msgOpen]
        split
        · exact .inl rfl
        · exact .inr (.inr ⟨hfd', by simp, _, Function.update_self _ _ _, rfl⟩)
      · simp only [Gate.msgOpen]
        split
        · exact ⟨fun hnone => by simpa [Gate.socketClose, heq] using hnone, .inl rfl⟩
        · exact ⟨fun hnone => by simpa [heq] using hnone, .inl (Function.update_of_ne heq _ _)⟩
    · cases h
  | msgClose fd' =>
    obtain rfl := Option.some.inj h
    exact ⟨(hclose fd').1, (hclose fd').2.imp_right .inl⟩
  | msgError fd' =>
    obtain rfl := Option.some.inj h
    exact ⟨(hclose fd').1, (hclose fd').2.imp_right .inl⟩
  | closeClient fd' =>
    obtain rfl := Option.some.inj h
    have hgate : (s.closeClient fd').gate = s.gate := by
      unfold Gateserver.closeClient
      split <;> rfl
    rw [hgate]
    exact ⟨fun hnone => hnone, .inl rfl⟩
  | logged i =>
    simp only [Gateserver.step, Gateserver.logged] at h
    split at h
    · rename_i fd' _
      obtain rfl := Option.some.inj h
      refine ⟨fun hnone => ?_, .inl rfl⟩
      by_cases heq : fd = fd'
      · subst heq
        simpa [Gate.socketClose] using hnone
      · simpa [Gate.socketClose, heq] using hnone
    · cases h
  | forward fd' agent => exact absurd rfl (hevent fd' agent)
  | answered i ok =>
    simp only [Gateserver.step, Gateserver.answered] at h
    split at h
    · rename_i fd' _
      cases ok with
      | true =>
        obtain rfl := Option.some.inj h
        exact ⟨fun hnone => hnone, (hremove fd').imp_right .inl⟩
      | false =>
        obtain rfl := Option.some.inj h
        exact ⟨fun hnone => hnone, .inl rfl⟩
    · cases h

namespace Gameserver

theorem forward_eq (s : Gameserver) (fd : Fd) (a : Handle) :
    s.forward fd a = { s with
      pendingMsg := Function.update s.pendingMsg fd none
      server := { s.server with gate := s.server.gate.forward fd a } } := by
  unfold forward dealPendingMsg
  split
  · rename_i hnone
    rw [show Function.update s.pendingMsg fd none = s.pendingMsg from hnone ▸ Function.update_eq_self fd s.pendingMsg]
  · rfl

namespace Relayed

variable {s : Gameserver} {fd : Fd}

theorem socket (h : Relayed fd s) {event : Gateserver.Event} (hevent : ∀ fd agent, event ≠ .forward fd agent)
    {server : Gateserver} (hserver : s.server.step event = some server) : Relayed fd { s with server } := by
  obtain ⟨hsockets, hcases⟩ := Gateserver.connection_step hevent hserver fd
  have hfresh : server.gate.sockets fd = none → server.gate.connection fd = none := by
    intro hnone
    rcases hcases with hsame | hgone | ⟨-, hmade, -⟩
    · exact hsame.trans (h.fresh (hsockets hnone)).1
    · exact hgone
    · exact absurd hnone hmade
  have hold : ∀ c, server.gate.connection fd = some c →
      s.server.gate.connection fd = some c ∨ (s.server.gate.sockets fd = none ∧ c.agent = none) := by
    intro c hc
    rcases hcases with hsame | hgone | ⟨hnone, -, c', hc', hagent⟩
    · exact .inl (hsame.symm.trans hc)
    · cases hgone.symm.trans hc
    · rw [← Option.some.inj (hc'.symm.trans hc)]
      exact .inr ⟨hnone, hagent⟩
  refine ⟨fun hnone => ⟨hfresh hnone, (h.fresh (hsockets hnone)).2⟩, fun c hc hagent hpending => ?_,
    fun c queue hc hagent hpending => ?_, fun c a hc hagent => ?_⟩
  · rcases hold c hc with hc | ⟨hnone, -⟩
    · exact h.before c hc hagent hpending
    · exact (h.fresh hnone).2.2
  · rcases hold c hc with hc | ⟨hnone, -⟩
    · exact h.waiting c queue hc hagent hpending
    · cases (h.fresh hnone).2.1.symm.trans hpending
  · rcases hold c hc with hc | ⟨-, hnone⟩
    · exact h.forwarded c a hc hagent
    · cases hnone.symm.trans hagent

theorem congr (h : Relayed fd s) {s' : Gameserver} (hgate : s'.server.gate.sockets fd = s.server.gate.sockets fd ∧
      s'.server.gate.connection fd = s.server.gate.connection fd)
    (hpending : s'.pendingMsg fd = s.pendingMsg fd) (harrived : messages fd s'.arrived = messages fd s.arrived)
    (hsent : messages fd s'.sent = messages fd s.sent)
    (hlogin : (fd ∈ s'.authenticating → fd ∈ s.authenticating) ∧ (fd ∈ s'.accepted → fd ∈ s.accepted ∨ fd ∈ s.authenticating)) :
    Relayed fd s' := by
  have hout : fd ∉ s.authenticating ∧ fd ∉ s.accepted → fd ∉ s'.authenticating ∧ fd ∉ s'.accepted := by
    rintro ⟨hauth, hacc⟩
    exact ⟨fun hmem => hauth (hlogin.1 hmem), fun hmem => (hlogin.2 hmem).elim hacc hauth⟩
  constructor
  case fresh =>
    rw [hgate.1, hgate.2, hpending, harrived, hsent]
    intro hnone
    obtain ⟨hconnection, hqueue, hin, hsent', hrest⟩ := h.fresh hnone
    exact ⟨hconnection, hqueue, hin, hsent', hout hrest⟩
  case before =>
    rw [hgate.2, hpending, harrived, hsent]
    intro c hc hagent hqueue
    obtain ⟨hin, hsent', hrest⟩ := h.before c hc hagent hqueue
    exact ⟨hin, hsent', hout hrest⟩
  case waiting =>
    rw [hgate.2, hpending, harrived, hsent]
    exact h.waiting
  case forwarded =>
    rw [hgate.2, afterLogin, harrived, hsent]
    exact h.forwarded

theorem dispatchMsg_of_ne (h : Relayed fd s) {fd' : Fd} (hne : fd' ≠ fd) (msg : String) :
    Relayed fd (s.dispatchMsg fd' msg) := by
  have hpending : ∀ queue, Function.update s.pendingMsg fd' queue fd = s.pendingMsg fd :=
    fun queue => Function.update_of_ne (Ne.symm hne) _ _
  have harrived := messages_snoc_of_ne hne s.arrived msg
  cases hc : s.server.gate.connection fd' with
  | none =>
    have heq : s.dispatchMsg fd' msg = s := by simp [Gameserver.dispatchMsg, hc]
    rw [heq]
    exact h
  | some c =>
    cases hagent : c.agent with
    | some agent =>
      have heq : s.dispatchMsg fd' msg =
          { s with arrived := s.arrived ++ [(fd', msg)], sent := s.sent ++ [(fd', agent, msg)] } := by
        simp [Gameserver.dispatchMsg, hc, hagent]
      rw [heq]
      exact h.congr ⟨rfl, rfl⟩ rfl harrived (messages_snoc_of_ne hne _ _) ⟨fun hmem => hmem, .inl⟩
    | none =>
      cases hqueue : s.pendingMsg fd' with
      | some queue =>
        have heq : s.dispatchMsg fd' msg = { s with
            arrived := s.arrived ++ [(fd', msg)]
            pendingMsg := Function.update s.pendingMsg fd' (some (queue ++ [msg])) } := by
          simp [Gameserver.dispatchMsg, hc, hagent, hqueue]
        rw [heq]
        exact h.congr ⟨rfl, rfl⟩ (hpending _) harrived rfl ⟨fun hmem => hmem, .inl⟩
      | none =>
        have heq : s.dispatchMsg fd' msg = { s with
            arrived := s.arrived ++ [(fd', msg)]
            pendingMsg := Function.update s.pendingMsg fd' (some [])
            authenticating := s.authenticating ++ [fd'] } := by
          simp [Gameserver.dispatchMsg, hc, hagent, hqueue]
        rw [heq]
        refine h.congr ⟨rfl, rfl⟩ (hpending _) harrived rfl ⟨fun hmem => ?_, .inl⟩
        rcases List.mem_append.mp hmem with hmem | hmem
        · exact hmem
        · exact absurd (List.mem_singleton.mp hmem).symm hne

theorem of_waiting {c : Client} {queue : List String} (hc : s.server.gate.connection fd = some c)
    (hagent : c.agent = none) (hsocket : s.server.gate.sockets fd ≠ none) (hqueue : s.pendingMsg fd = some queue)
    (harrived : messages fd s.arrived ≠ []) (hsent : messages fd s.sent = []) : Relayed fd s := by
  refine ⟨fun hnone => absurd hnone hsocket, fun c' _ _ hnone => ?_, fun c' _ _ _ _ => ⟨harrived, hsent⟩,
    fun c' a hc' ha => ?_⟩
  · cases hqueue.symm.trans hnone
  · obtain rfl := Option.some.inj (hc.symm.trans hc')
    cases hagent.symm.trans ha

theorem dispatchMsg_self (h : Relayed fd s) (msg : String) : Relayed fd (s.dispatchMsg fd msg) := by
  have harrived : messages fd (s.arrived ++ [(fd, msg)]) ≠ [] := by simp
  cases hc : s.server.gate.connection fd with
  | none =>
    have heq : s.dispatchMsg fd msg = s := by simp [Gameserver.dispatchMsg, hc]
    rw [heq]
    exact h
  | some c =>
    have hsocket : s.server.gate.sockets fd ≠ none := fun hnone => by
      cases (h.fresh hnone).1.symm.trans hc
    cases hagent : c.agent with
    | some agent =>
      have heq : s.dispatchMsg fd msg =
          { s with arrived := s.arrived ++ [(fd, msg)], sent := s.sent ++ [(fd, agent, msg)] } := by
        simp [Gameserver.dispatchMsg, hc, hagent]
      rw [heq]
      obtain ⟨hlogin, hsent⟩ := h.forwarded c agent hc hagent
      refine ⟨fun hnone => absurd hnone hsocket, fun c' hc' hnone => ?_, fun c' queue hc' hnone => ?_, fun c' a hc' ha => ?_⟩
      · obtain rfl := Option.some.inj (hc.symm.trans hc')
        cases hagent.symm.trans hnone
      · obtain rfl := Option.some.inj (hc.symm.trans hc')
        cases hagent.symm.trans hnone
      · obtain rfl := Option.some.inj (hc.symm.trans hc')
        obtain rfl := Option.some.inj (hagent.symm.trans ha)
        refine ⟨harrived, ?_⟩
        -- the login message is still the first one
        simp only [afterLogin, messages_snoc_self, List.tail_append_of_ne_nil hlogin, List.map_append, List.map_cons,
          List.map_nil]
        rw [hsent, afterLogin]
    | none =>
      cases hqueue : s.pendingMsg fd with
      | some queue =>
        have heq : s.dispatchMsg fd msg = { s with
            arrived := s.arrived ++ [(fd, msg)]
            pendingMsg := Function.update s.pendingMsg fd (some (queue ++ [msg])) } := by
          simp [Gameserver.dispatchMsg, hc, hagent, hqueue]
        rw [heq]
        exact of_waiting hc hagent hsocket (Function.update_self _ _ _) harrived
          (h.waiting c queue hc hagent hqueue).2
      | none =>
        have heq : s.dispatchMsg fd msg = { s with
            arrived := s.arrived ++ [(fd, msg)]
            pendingMsg := Function.update s.pendingMsg fd (some [])
            authenticating := s.authenticating ++ [fd] } := by
          simp [Gameserver.dispatchMsg, hc, hagent, hqueue]
        rw [heq]
        exact of_waiting hc hagent hsocket (Function.update_self _ _ _) harrived (h.before c hc hagent hqueue).2.1

theorem dispatchMsg (h : Relayed fd s) (fd' : Fd) (msg : String) : Relayed fd (s.dispatchMsg fd' msg) := by
  by_cases heq : fd' = fd
  · subst heq
    exact h.dispatchMsg_self msg
  · exact h.dispatchMsg_of_ne heq msg

theorem dispatchQueue (h : Relayed fd s) (queue : List (Fd × String)) : Relayed fd (s.dispatchQueue queue) := by
  unfold Gameserver.dispatchQueue
  induction queue generalizing s with
  | nil => exact h
  | cons msg queue ih => exact ih (h.dispatchMsg msg.1 msg.2)

theorem authenticated (h : Relayed fd s) {fd' : Fd} {ok : Bool} {s' : Gameserver}
    (hs' : s.authenticated fd' ok = some s') : Relayed fd s' := by
  unfold Gameserver.authenticated at hs'
  split at hs'
  · rename_i hauth
    cases ok with
    | true =>
      obtain rfl := Option.some.inj hs'
      refine h.congr ⟨rfl, rfl⟩ rfl rfl rfl ⟨List.mem_of_mem_erase, fun hmem => ?_⟩
      rcases List.mem_append.mp hmem with hmem | hmem
      · exact .inl hmem
      · obtain rfl := List.mem_singleton.mp hmem
        exact .inr hauth
    | false =>
      obtain rfl := Option.some.inj hs'
      have hgate : (s.server.closeClient fd').gate = s.server.gate := by
        unfold Gateserver.closeClient
        split <;> rfl
      exact h.congr ⟨by rw [hgate], by rw [hgate]⟩ rfl rfl rfl ⟨List.mem_of_mem_erase, .inl⟩
  · cases hs'

theorem forward_of_ne (h : Relayed fd s) {fd' : Fd} (hne : fd' ≠ fd) (a : Handle) : Relayed fd (s.forward fd' a) := by
  have hgate : (s.server.gate.forward fd' a).sockets fd = s.server.gate.sockets fd ∧
      (s.server.gate.forward fd' a).connection fd = s.server.gate.connection fd := by
    unfold Gate.forward
    split
    · exact ⟨rfl, Function.update_of_ne (Ne.symm hne) _ _⟩
    · exact ⟨rfl, rfl⟩
  rw [forward_eq]
  exact h.congr hgate (Function.update_of_ne (Ne.symm hne) _ _) rfl rfl ⟨fun hmem => hmem, .inl⟩

theorem forward_self (h : Relayed fd s) (hacc : fd ∈ s.accepted) {a : Handle}
    (hsent : ∀ c, s.server.gate.connection fd = some c → messages fd s.sent = (s.afterLogin fd).map fun msg => (a, msg)) :
    Relayed fd (s.forward fd a) := by
  rw [forward_eq]
  cases hc : s.server.gate.connection fd with
  | none =>
    have hgate : s.server.gate.forward fd a = s.server.gate := by simp [Gate.forward, hc]
    rw [hgate]
    refine ⟨fun hnone => absurd hacc (h.fresh hnone).2.2.2.2.2, fun c hc' => ?_, fun c queue hc' => ?_, fun c a' hc' => ?_⟩
    all_goals cases hc.symm.trans hc'
  | some c =>
    have hgate : s.server.gate.forward fd a = { s.server.gate with
        connection := Function.update s.server.gate.connection fd (some { c with agent := some a }) } := by
      simp [Gate.forward, hc]
    have hlogin : messages fd s.arrived ≠ [] := by
      rcases Option.eq_none_or_eq_some c.agent with hagent | ⟨a', hagent⟩
      · rcases Option.eq_none_or_eq_some (s.pendingMsg fd) with hqueue | ⟨queue, hqueue⟩
        · exact absurd hacc (h.before c hc hagent hqueue).2.2.2
        · exact (h.waiting c queue hc hagent hqueue).1
      · exact (h.forwarded c a' hc hagent).1
    have hnew : ∀ c', Function.update s.server.gate.connection fd (some { c with agent := some a }) fd = some c' →
        c'.agent = some a := by
      intro c' hc'
      rw [Function.update_self] at hc'
      rw [← Option.some.inj hc']
    rw [hgate]
    refine ⟨fun hnone => absurd hacc (h.fresh hnone).2.2.2.2.2, fun c' hc' hnone => ?_, fun c' queue hc' hnone => ?_,
      fun c' a' hc' ha' => ⟨hlogin, ?_⟩⟩
    · cases (hnew c' hc').symm.trans hnone
    · cases (hnew c' hc').symm.trans hnone
    · obtain rfl := Option.some.inj ((hnew c' hc').symm.trans ha')
      exact hsent c hc

theorem sent_iff (h : Relayed fd s) (hacc : fd ∈ s.accepted) {c : Client} (hc : s.server.gate.connection fd = some c)
    (a : Handle) : messages fd s.sent = (s.afterLogin fd).map (fun msg => (a, msg)) ↔
      c.agent = some a ∨ s.afterLogin fd = [] := by
  rcases Option.eq_none_or_eq_some c.agent with hagent | ⟨a', hagent⟩
  · rcases Option.eq_none_or_eq_some (s.pendingMsg fd) with hqueue | ⟨queue, hqueue⟩
    · exact absurd hacc (h.before c hc hagent hqueue).2.2.2
    · rw [(h.waiting c queue hc hagent hqueue).2, hagent, eq_comm, List.map_eq_nil_iff]
      simp
  · rw [(h.forwarded c a' hc hagent).2, hagent]
    cases s.afterLogin fd with
    | nil => simp
    | cons msg rest =>
      refine ⟨fun heq => .inl ?_, ?_⟩
      · simp only [List.map_cons, List.cons.injEq, Prod.mk.injEq] at heq
        exact congrArg some heq.1.1
      · rintro (heq | heq)
        · rw [Option.some.inj heq]
        · cases heq

theorem step (h : Relayed fd s) {event : Event} (hsilent : Silent fd s event) {s' : Gameserver}
    (hs' : s.step event = some s') : Relayed fd s' := by
  cases event with
  | socket event =>
    cases event with
    | forward fd' a => cases hs'
    | _ =>
      simp only [Gameserver.step, Option.map_eq_some_iff] at hs'
      obtain ⟨server, hserver, rfl⟩ := hs'
      exact h.socket (fun _ _ heq => by cases heq) hserver
  | data fd' msg =>
    obtain rfl := Option.some.inj hs'
    exact h.dispatchMsg fd' msg
  | more queue =>
    obtain rfl := Option.some.inj hs'
    exact h.dispatchQueue queue
  | authenticated fd' ok => exact h.authenticated hs'
  | forward fd' a =>
    simp only [Gameserver.step] at hs'
    split at hs'
    · rename_i hacc
      obtain rfl := Option.some.inj hs'
      by_cases heq : fd' = fd
      · subst heq
        exact h.forward_self hacc fun c hc => (h.sent_iff hacc hc a).mpr (hsilent rfl hacc c hc)
      · exact h.forward_of_ne heq a
    · cases hs'

theorem delivered (h : Relayed fd s) : Delivered fd s := fun c a hc hagent => (h.forwarded c a hc hagent).2

theorem delivered_iff_silent (h : Relayed fd s) (event : Event) :
    (∀ s' ∈ s.step event, Delivered fd s') ↔ Silent fd s event := by
  refine ⟨fun hall => ?_, fun hsilent s' hs' => (h.step hsilent hs').delivered⟩
  cases event with
  | forward fd' a =>
    rintro rfl hacc c hc
    have hdelivered : Delivered fd' (s.forward fd' a) := hall _ (if_pos hacc)
    rw [forward_eq] at hdelivered
    refine (h.sent_iff hacc hc a).mp (hdelivered { c with agent := some a } a ?_ rfl)
    simp [Gate.forward, hc]
  | _ => trivial

end Relayed

/-! ### Runs -/

/-- **Messages around a login.** In every state of a run the messages of a client have been delivered to the agent to
which it is forwarded, if and only if the client is silent from its login message on until it is forwarded to this
agent. -/
theorem always_delivered_iff_silent (maxclient : Int) (events : List Event) (fd : Fd) :
    Always step (Delivered fd) { server := { gate := { maxclient } } } events ↔
      Along step (Silent fd) { server := { gate := { maxclient } } } events := by
  have hinit := relayed_init fd maxclient
  rw [always_iff_along, and_iff_right hinit.delivered]
  exact along_congr (fun s event h => h.delivered_iff_silent event)
    (fun s event s' h hall hs' => h.step ((h.delivered_iff_silent event).mp hall) hs') hinit

/-- The client 1 sends a message while its login is being authenticated, and one after it has been forwarded. -/
def sendsEarly : List Event :=
  [.socket (.msgOpen 1 "127.0.0.1"), .data 1 "login", .data 1 "early", .authenticated 1 true, .forward 1 0,
    .data 1 "late"]

theorem not_delivered_sends_early :
    ¬ ∀ (maxclient : Int) (events : List Event) (fd : Fd),
      Always step (Delivered fd) { server := { gate := { maxclient } } } events := by
  intro hall
  have hsent := hall 64 sendsEarly 1 _ _ List.prefix_rfl rfl ⟨"127.0.0.1", some 0⟩ 0 rfl rfl
  revert hsent
  decide

end Gameserver

end SkynetServer.Game
