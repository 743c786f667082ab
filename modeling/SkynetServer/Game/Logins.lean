import SkynetServer.Game.Waiting

/-!
# No login is lost

Between its acceptance and `gameserver.forward` a login is in one place: with `create_agent`, with the agent that it
takes over or that is opened for it, or in the table of `online_account` that waits for the close of a kicked agent. In a
quiet state it can be in none of them, since a kicked agent always has its close on the way. This takes logins of one
account that do not overlap, clients that stay until they are forwarded, and closes that do not overtake a login that
calls the agent.
-/

namespace SkynetServer.Game

open Lib

/-! ### What the gate says -/

namespace Gate

theorem agentOf_msgOpen (gate : Gate) (fd fd' : Fd) (addr : String) (h : fd' ≠ fd) :
    (gate.msgOpen fd addr).agentOf fd' = gate.agentOf fd' := by
  simp only [msgOpen, agentOf]
  split
  · rfl
  · simp [Function.update_of_ne h]

theorem agentOf_msgOpen_self (gate : Gate) (fd : Fd) (addr : String) :
    (gate.msgOpen fd addr).agentOf fd = gate.agentOf fd ∨ (gate.msgOpen fd addr).agentOf fd = some none := by
  simp only [msgOpen, agentOf]
  split
  · exact .inl rfl
  · exact .inr (by simp)

theorem sockets_msgOpen (gate : Gate) (fd fd' : Fd) (addr : String) (h : fd' ≠ fd) :
    (gate.msgOpen fd addr).sockets fd' = gate.sockets fd' := by
  simp only [msgOpen]
  split <;> simp [socketClose, Function.update_of_ne h]

theorem sockets_msgOpen_self (gate : Gate) (fd : Fd) (addr : String) : (gate.msgOpen fd addr).sockets fd ≠ none := by
  simp only [msgOpen]
  split <;> simp [socketClose]

theorem closing_le_msgOpen (gate : Gate) (fd fd' : Fd) (addr : String) (h : gate.sockets fd = none) :
    gate.closing fd' ≤ (gate.msgOpen fd addr).closing fd' := by
  by_cases hfd : fd' = fd
  · subst hfd
    simp [closing, h]
  · simp [closing, sockets_msgOpen gate fd fd' addr hfd]

theorem sockets_socketClose (gate : Gate) (fd fd' : Fd) :
    (gate.socketClose fd).sockets fd' = none ↔ gate.sockets fd' = none := by
  by_cases hfd : fd' = fd
  · subst hfd
    simp [socketClose]
  · simp [socketClose, Function.update_of_ne hfd]

theorem closing_le_socketClose (gate : Gate) (fd fd' : Fd) : gate.closing fd' ≤ (gate.socketClose fd).closing fd' := by
  by_cases hfd : fd' = fd
  · subst hfd
    cases hsocket : gate.sockets fd' <;> simp [closing, socketClose, hsocket]
  · simp [closing, socketClose, Function.update_of_ne hfd]

theorem closing_socketClose_pos {gate : Gate} {fd : Fd} (h : gate.sockets fd ≠ none) :
    0 < (gate.socketClose fd).closing fd := by
  obtain ⟨socket, hsocket⟩ := Option.ne_none_iff_exists'.mp h
  simp [closing, socketClose, hsocket]

theorem closesClient_of_agentOf {gate : Gate} {fd : Fd} {agent : Option Handle} (h : gate.agentOf fd = some agent) :
    gate.closesClient fd = true := by
  obtain ⟨c, hc, -⟩ := Option.map_eq_some_iff.mp h
  simp [closesClient, hc]

theorem agentOf_forward (gate : Gate) (fd fd' : Fd) (a : Handle) :
    (gate.forward fd a).agentOf fd' =
      if fd' = fd then (gate.agentOf fd).map fun _ => some a else gate.agentOf fd' := by
  unfold forward agentOf
  by_cases hfd : fd' = fd
  · subst hfd
    cases hconnection : gate.connection fd' <;> simp [hconnection]
  · cases hconnection : gate.connection fd <;> simp [hfd]

theorem sockets_forward (gate : Gate) (fd : Fd) (a : Handle) : (gate.forward fd a).sockets = gate.sockets := by
  unfold forward
  split <;> rfl

theorem agentOf_forward_of_ne (gate : Gate) {fd fd' : Fd} (a : Handle) (h : fd' ≠ fd) :
    (gate.forward fd a).agentOf fd' = gate.agentOf fd' :=
  (gate.agentOf_forward fd fd' a).trans (if_neg h)

theorem closing_forward (gate : Gate) (fd fd' : Fd) (a : Handle) : (gate.forward fd a).closing fd' = gate.closing fd' := by
  simp only [closing, sockets_forward]

theorem agentOf_remove (gate : Gate) (fd fd' : Fd) :
    (gate.remove fd).agentOf fd' = if fd' = fd then none else gate.agentOf fd' := by
  unfold remove agentOf
  by_cases hfd : fd' = fd
  · subst hfd
    simp
  · simp [hfd]

end Gate

theorem Gamed.lookup_suspendClose {s : Gamed} {r r' : Recycling} {t : Task}
    (h : (s.suspendClose r).recycling.lookup t = some r') : r' = r ∨ s.recycling.lookup t = some r' := by
  rcases Table.lookup_insert_cases h with ⟨-, rfl⟩ | ⟨-, h⟩
  · exact .inl rfl
  · exact .inr h

namespace Gamed

variable {s : Gamed}

theorem agent_popOutbox_of_ne {a b : Handle} (outbox : List ToGamed) (hb : b ≠ a) :
    (s.popOutbox a outbox).agent b = s.agent b := by
  rw [popOutbox, agent_setAgent, if_neg hb]

theorem logins_setAgent (s : Gamed) (a b : Handle) (x : Agent) :
    ((s.setAgent a x).agent b).logins = if b = a then x.logins else (s.agent b).logins := by
  rw [agent_setAgent]
  split <;> rfl

theorem agentOk_setAgent {a : Handle} {x : Agent} (hagents : ∀ b, AgentOk s.gate b (s.agent b)) (hok : AgentOk s.gate a x)
    (b : Handle) : AgentOk s.gate b ((s.setAgent a x).agent b) := by
  rw [agent_setAgent]
  split
  · rename_i hb
    exact hb ▸ hok
  · exact hagents b

theorem mem_held_setAgent {a b : Handle} {x : Agent} {held : Option Id}
    (hless : held ∈ (s.agent a).held → held ∈ x.held) (h : held ∈ (s.agent b).held) :
    held ∈ ((s.setAgent a x).agent b).held := by
  rw [agent_setAgent]
  split
  · rename_i hb
    exact hless (hb ▸ h)
  · exact h

section

variable (s) (fd : Fd) (id : Id) (task : Option Task) (agent : Handle)

theorem agent_openAgent (b : Handle) : (s.openAgent fd id task agent).agent b =
    if b = agent then { s.agent agent with inbox := (s.agent agent).inbox ++ [.cmdAgentOpen fd id task] } else s.agent b :=
  agent_setAgent _ _ _ _

theorem onlineAccount_openAgent_self : (s.openAgent fd id task agent).onlineAccount id = some s.nextInfo :=
  Function.update_self _ _ _

theorem onlineAccount_openAgent_of_ne {id' : Id} (hid : id' ≠ id) :
    (s.openAgent fd id task agent).onlineAccount id' = s.onlineAccount id' :=
  Function.update_of_ne hid _ _

theorem info_openAgent_self : (s.openAgent fd id task agent).info s.nextInfo = { agent } := Function.update_self _ _ _

theorem info_openAgent_of_lt {ref : Ref} (href : ref < s.nextInfo) :
    (s.openAgent fd id task agent).info ref = s.info ref :=
  Function.update_of_ne (Nat.ne_of_lt href) _ _

end

end Gamed

/-! ### Where a login is -/

/-- Between its acceptance and `gameserver.forward` a login is in one place. -/
structure Logins (s : Gamed) : Prop where
  agents : ∀ a, AgentOk s.gate a (s.agent a)
  /-- A login waits for the agent of its account, which it has found in `online_account` or put there. -/
  account : ∀ a, ∀ caller ∈ (s.agent a).logins, ∃ id ref, s.accepted caller.fd = some id ∧
    s.onlineAccount id = some ref ∧ (s.info ref).agent = a ∧ (s.info ref).kick = none ∧
      ∀ t, caller = .otherLogin t ∨ caller = .kicking t → t.info = ref
  creating : ∀ c ∈ s.creating, s.accepted c.fd = some c.id ∧ s.gate.agentOf c.fd = some none
  again : ∀ c ∈ s.creating, ∀ ref, s.onlineAccount c.id = some ref → (s.info ref).kick = some c.fd
  kick : ∀ id ref fd, s.onlineAccount id = some ref → (s.info ref).kick = some fd →
    s.accepted fd = some id ∧ s.gate.agentOf fd = some none ∧
      ((∃ c ∈ s.creating, c.id = id) ∨
        ((s.agent (s.info ref).agent).logins = 0 ∧ (s.agent (s.info ref).agent).Underway s.gate))
  online : ∀ id ref, s.onlineAccount id = some ref →
    some id ∈ (s.agent (s.info ref).agent).held ∨ ∃ c ∈ s.creating, c.id = id
  accepted : ∀ fd id, s.accepted fd = some id → s.gate.agentOf fd = some none →
    (∃ c ∈ s.creating, c.fd = fd) ∨ (∃ a, ∃ caller ∈ (s.agent a).logins, caller.fd = fd) ∨
      ∃ ref, s.onlineAccount id = some ref ∧ (s.info ref).kick = some fd
  authenticating : s.authenticating.Nodup ∧
    ∀ fd ∈ s.authenticating, s.accepted fd = none ∧ s.pendingMsg fd ≠ none
  forwarded : ∀ fd a, s.gate.agentOf fd = some (some a) → s.accepted fd ≠ none
  pending : ∀ fd, s.accepted fd ≠ none → s.gate.agentOf fd = some none → s.pendingMsg fd ≠ none
  recycling : ∀ t r, s.recycling.lookup t = some r →
    s.gate.sockets r.fd ≠ none ∧ (s.gate.agentOf r.fd = none ∨ s.gate.agentOf r.fd = some (some r.agent))
  sockets : ∀ fd, s.gate.sockets fd = none → s.gate.agentOf fd = none ∧ s.accepted fd = none ∧ fd ∉ s.authenticating

namespace Logins

variable {s : Gamed}

theorem setAgent (h : Logins s) {a : Handle} {x : Agent} (hok : AgentOk s.gate a x)
    (hlogins : x.logins = (s.agent a).logins) (hheld : ∀ id, some id ∈ (s.agent a).held → some id ∈ x.held)
    (hunder : x.logins = 0 → (s.agent a).Underway s.gate → x.Underway s.gate) : Logins (s.setAgent a x) := by
  have hagent : ∀ b, ((s.setAgent a x).agent b).logins = (s.agent b).logins := fun b => by
    rw [Gamed.logins_setAgent]
    split
    · rename_i hb
      rw [hb, hlogins]
    · rfl
  refine { h with
    agents := Gamed.agentOk_setAgent h.agents hok
    account := fun b caller hcaller => h.account b caller (hagent b ▸ hcaller)
    kick := fun id ref fd href hkick => ?kick
    online := fun id ref href => (h.online id ref href).imp_left (Gamed.mem_held_setAgent (hheld id))
    accepted := fun fd id hid hfd => ?accepted }
  case kick =>
    obtain ⟨hid, hfd, hplace⟩ := h.kick id ref fd href hkick
    refine ⟨hid, hfd, hplace.imp_right ?_⟩
    rintro ⟨hzero, hu⟩
    refine ⟨(hagent _).trans hzero, ?_⟩
    change Agent.Underway s.gate ((s.setAgent a x).agent (s.info ref).agent)
    rw [Gamed.agent_setAgent]
    split
    · rename_i hb
      rw [hb] at hzero hu
      exact hunder (hlogins.trans hzero) hu
    · exact hu
  case accepted =>
    rcases h.accepted fd id hid hfd with hc | ⟨b, caller, hcaller, heq⟩ | hkick
    · exact .inl hc
    · exact .inr (.inl ⟨b, caller, hagent b ▸ hcaller, heq⟩)
    · exact .inr (.inr hkick)

theorem send (h : Logins s) {a : Handle} {msg : ToAgent}
    (hmsg : ∀ caller ∈ Agent.callerContent.inbox msg, caller.isLogin = false)
    (hclosing : ∀ fd, .closing fd ∈ Agent.callerContent.inbox msg →
      s.gate.sockets fd ≠ none ∧ (s.gate.agentOf fd = none ∨ s.gate.agentOf fd = some (some a)))
    (hlate : ∀ fd ∈ Agent.lateContent.inbox msg, ∀ u, (s.agent a).user = some u → u.fd ≠ fd) :
    Logins (s.send a msg) := by
  have hnone : (Agent.callerContent.inbox msg).filter (fun caller => caller.isLogin) = 0 :=
    Multiset.filter_eq_nil.mpr fun caller hcaller => by simp [hmsg caller hcaller]
  refine h.setAgent ((h.agents a).push msg (fun caller hcaller hlogin => ?_) hclosing hlate fun t ht => ?_) ?_
    (fun id hid => ?_) fun _ hunder => hunder.push msg
  · rw [hmsg caller hcaller] at hlogin
    cases hlogin
  · subst ht
    cases hmsg (.kicking t) (Multiset.mem_singleton_self _)
  · rw [Agent.logins_push, hnone, zero_add]
  · rw [Agent.held_push]
    exact Multiset.mem_add.mpr (.inr hid)

theorem popOutbox (h : Logins s) {a : Handle} {msg : ToGamed} {outbox : List ToGamed}
    (houtbox : (s.agent a).outbox = msg :: outbox)
    (hmsg : ∀ caller ∈ Agent.callerContent.outbox msg, caller.isLogin = false)
    (hclose : ∀ id fd, msg ≠ .cmdGamedClose id fd) : Logins (s.popOutbox a outbox) := by
  have hnone : (Agent.callerContent.outbox msg).filter (fun caller => caller.isLogin) = 0 :=
    Multiset.filter_eq_nil.mpr fun caller hcaller => by simp [hmsg caller hcaller]
  refine h.setAgent ((h.agents a).pop houtbox (fun fd task hmem => ?_) fun id fd heq => absurd heq (hclose id fd)) ?_
    (fun id hid => ?_) fun _ hunder => hunder.pop houtbox
  · cases hmsg _ hmem
  · rw [Agent.logins_pop_outbox houtbox, hnone, zero_add]
  · rw [Agent.held_pop_outbox houtbox] at hid
    refine (Multiset.mem_add.mp hid).resolve_left fun hmem => ?_
    cases msg with
    | cmdGamedClose id' fd => exact hclose id' fd rfl
    | _ => cases hmem

theorem of_gate (h : Logins s) {gate : Gate} (hagent : ∀ fd, gate.agentOf fd = s.gate.agentOf fd)
    (hsockets : ∀ fd, gate.sockets fd = none ↔ s.gate.sockets fd = none)
    (hunder : ∀ a, (s.agent a).Underway s.gate → (s.agent a).Underway gate) : Logins { s with gate } where
  agents := fun a => (h.agents a).of_gate (fun u _ hu => (hagent u.fd).trans hu) (fun caller _ _ => hagent caller.fd)
    (fun fd hfd => by
      rw [hagent, Ne, hsockets]
      exact (h.agents a).closing fd hfd) (hunder a)
  account := h.account
  creating := fun c hc => by
    change _ ∧ gate.agentOf c.fd = _
    rw [hagent]
    exact h.creating c hc
  again := h.again
  kick := fun id ref fd href hkick => by
    obtain ⟨hid, hfd, hplace⟩ := h.kick id ref fd href hkick
    exact ⟨hid, (hagent fd).trans hfd, hplace.imp_right fun hu => ⟨hu.1, hunder _ hu.2⟩⟩
  online := h.online
  accepted := fun fd id hid hfd => h.accepted fd id hid ((hagent fd).symm.trans hfd)
  authenticating := h.authenticating
  forwarded := fun fd a hfd => h.forwarded fd a ((hagent fd).symm.trans hfd)
  pending := fun fd hid hfd => h.pending fd hid ((hagent fd).symm.trans hfd)
  recycling := fun t r hr => by
    change gate.sockets r.fd ≠ none ∧ (gate.agentOf r.fd = none ∨ gate.agentOf r.fd = _)
    rw [hagent, Ne, hsockets]
    exact h.recycling t r hr
  sockets := fun fd hfd => by
    change gate.agentOf fd = none ∧ _
    rw [hagent]
    exact h.sockets fd ((hsockets fd).mp hfd)

theorem socketClose (h : Logins s) (fd : Fd) : Logins { s with gate := s.gate.socketClose fd } :=
  h.of_gate (fun _ => rfl) (s.gate.sockets_socketClose fd) fun _ hunder =>
    hunder.mono fun u _ => s.gate.closing_le_socketClose fd u.fd

theorem connect (h : Logins s) {fd : Fd} (addr : String) (hfd : s.gate.sockets fd = none) :
    Logins { s with gate := s.gate.msgOpen fd addr } := by
  obtain ⟨hnone, haccepted, hauth⟩ := h.sockets fd hfd
  have hne : ∀ fd', s.gate.sockets fd' ≠ none → fd' ≠ fd := fun fd' hfd' heq => hfd' (heq ▸ hfd)
  have hagent : ∀ fd' o, s.gate.agentOf fd' = some o → (s.gate.msgOpen fd addr).agentOf fd' = some o := by
    intro fd' o ho
    rw [s.gate.agentOf_msgOpen fd fd' addr]
    · exact ho
    · rintro rfl
      rw [hnone] at ho
      cases ho
  -- what the gate says of a client now, it said before, except that the new one is there
  have hback : ∀ fd' o, (s.gate.msgOpen fd addr).agentOf fd' = some o → s.gate.agentOf fd' = some o ∨ (fd' = fd ∧ o = none) := by
    intro fd' o ho
    by_cases heq : fd' = fd
    · subst heq
      rcases s.gate.agentOf_msgOpen_self fd' addr with hsame | hnew
      · exact .inl (hsame ▸ ho)
      · exact .inr ⟨rfl, Option.some.inj (ho.symm.trans hnew)⟩
    · exact .inl (s.gate.agentOf_msgOpen fd fd' addr heq ▸ ho)
  have hclosed : ∀ fd' a, s.gate.sockets fd' ≠ none → (s.gate.agentOf fd' = none ∨ s.gate.agentOf fd' = some (some a)) →
      (s.gate.msgOpen fd addr).sockets fd' ≠ none ∧
        ((s.gate.msgOpen fd addr).agentOf fd' = none ∨ (s.gate.msgOpen fd addr).agentOf fd' = some (some a)) := by
    intro fd' a hsocket hof
    rw [s.gate.sockets_msgOpen fd fd' addr (hne fd' hsocket), s.gate.agentOf_msgOpen fd fd' addr (hne fd' hsocket)]
    exact ⟨hsocket, hof⟩
  have hunder : ∀ x : Agent, x.Underway s.gate → x.Underway (s.gate.msgOpen fd addr) :=
    fun x hu => hu.mono fun u _ => s.gate.closing_le_msgOpen fd u.fd addr hfd
  refine { h with
    agents := fun a => ?agents
    creating := fun c hc => ?creating
    kick := fun id ref fd' href hkick => ?kick
    accepted := fun fd' id hid hfd' => ?accepted
    forwarded := fun fd' a hfd' => ?forwarded
    pending := fun fd' hid hfd' => ?pending
    recycling := fun t r hr => ?recycling
    sockets := fun fd' hfd' => ?sockets }
  case agents =>
    refine (h.agents a).of_gate (fun u _ hu => hagent _ _ hu) (fun caller hcaller hlogin => ?_) (fun fd' hfd' => ?_)
      (hunder _)
    · rw [(h.agents a).login caller hcaller hlogin]
      exact hagent _ _ ((h.agents a).login caller hcaller hlogin)
    · obtain ⟨hsocket, hof⟩ := (h.agents a).closing fd' hfd'
      exact hclosed fd' a hsocket hof
  case creating =>
    obtain ⟨hid, hof⟩ := h.creating c hc
    exact ⟨hid, hagent _ _ hof⟩
  case kick =>
    obtain ⟨hid, hof, hplace⟩ := h.kick id ref fd' href hkick
    exact ⟨hid, hagent _ _ hof, hplace.imp_right fun hu => ⟨hu.1, hunder _ hu.2⟩⟩
  case accepted =>
    rcases hback fd' _ hfd' with hold | ⟨rfl, -⟩
    · exact h.accepted fd' id hid hold
    · cases haccepted.symm.trans hid
  case forwarded =>
    rcases hback fd' _ hfd' with hold | ⟨-, heq⟩
    · exact h.forwarded fd' a hold
    · cases heq
  case pending =>
    rcases hback fd' _ hfd' with hold | ⟨rfl, -⟩
    · exact h.pending fd' hid hold
    · exact absurd haccepted hid
  case recycling =>
    obtain ⟨hsocket, hof⟩ := h.recycling t r hr
    exact hclosed r.fd r.agent hsocket hof
  case sockets =>
    have hfd'' : fd' ≠ fd := by
      rintro rfl
      exact s.gate.sockets_msgOpen_self fd' addr hfd'
    have hold : s.gate.sockets fd' = none := (s.gate.sockets_msgOpen fd fd' addr hfd'').symm.trans hfd'
    obtain ⟨hof, hacc, hin⟩ := h.sockets fd' hold
    exact ⟨(s.gate.agentOf_msgOpen fd fd' addr hfd'').trans hof, hacc, hin⟩

theorem agentOf_login (h : Logins s) {a : Handle} {caller : Caller} (hcaller : caller ∈ (s.agent a).logins) :
    s.gate.agentOf caller.fd = some none :=
  (h.agents a).login caller (Multiset.mem_filter.mp hcaller).1 (Multiset.mem_filter.mp hcaller).2

theorem eq_of_logins (h : Logins s) {a : Handle} {caller caller' : Caller} (hin : caller ∈ (s.agent a).logins)
    (hin' : caller' ∈ (s.agent a).logins) : caller' = caller :=
  (h.agents a).eq_of_login (Multiset.mem_filter.mp hin').1 (Multiset.mem_filter.mp hin').2
    (Multiset.mem_filter.mp hin).1 (Multiset.mem_filter.mp hin).2

/-- The login of a caller waits for the agent of its account. -/
structure Waits (s : Gamed) (a : Handle) (caller : Caller) (id : Id) (ref : Ref) : Prop where
  login : caller ∈ (s.agent a).logins
  accepted : s.accepted caller.fd = some id
  online : s.onlineAccount id = some ref
  agent : (s.info ref).agent = a
  kick : (s.info ref).kick = none

theorem exists_waits (h : Logins s) {a : Handle} {caller : Caller} (hcaller : caller ∈ (s.agent a).logins) :
    ∃ id ref, Waits s a caller id ref ∧ ∀ t, caller = .otherLogin t ∨ caller = .kicking t → t.info = ref := by
  obtain ⟨id, ref, hid, href, hagent, hkick, htake⟩ := h.account a caller hcaller
  exact ⟨id, ref, ⟨hcaller, hid, href, hagent, hkick⟩, htake⟩

namespace Waits

variable {a : Handle} {caller : Caller} {id : Id} {ref : Ref} (hw : Waits s a caller id ref) (h : Logins s)
include hw h

omit h in
theorem ne_of_logins {b : Handle} (hzero : (s.agent b).logins = 0) : b ≠ a := by
  rintro rfl
  have hin := hw.login
  rw [hzero] at hin
  cases hin

theorem agentOf_fd : s.gate.agentOf caller.fd = some none := h.agentOf_login hw.login

theorem creating_id_ne {c : Creation} (hc : c ∈ s.creating) : c.id ≠ id := by
  rintro rfl
  cases hw.kick.symm.trans (h.again c hc ref hw.online)

theorem creating_fd_ne {c : Creation} (hc : c ∈ s.creating) : c.fd ≠ caller.fd := fun heq =>
  hw.creating_id_ne h hc (Option.some.inj ((h.creating c hc).1.symm.trans (heq ▸ hw.accepted)))

theorem session : some id ∈ (s.agent a).held := by
  obtain hsession | ⟨c, hc, heq⟩ := h.online id ref hw.online
  · exact hw.agent ▸ hsession
  · exact absurd heq (hw.creating_id_ne h hc)

theorem login_id_ne {b : Handle} {caller' : Caller} (hcaller : caller' ∈ (s.agent b).logins) (hb : b ≠ a) {id' : Id}
    (hid : s.accepted caller'.fd = some id') : id' ≠ id := by
  rintro rfl
  obtain ⟨id, ref', hid', href', hagent', -⟩ := h.account b caller' hcaller
  obtain rfl : id' = id := Option.some.inj (hid.symm.trans hid')
  obtain rfl : ref = ref' := Option.some.inj (hw.online.symm.trans href')
  exact hb (hagent'.symm.trans hw.agent)

theorem login_fd_ne {b : Handle} {caller' : Caller} (hcaller : caller' ∈ (s.agent b).logins) (hb : b ≠ a) :
    caller'.fd ≠ caller.fd := fun heq =>
  hw.login_id_ne h hcaller hb (heq.symm ▸ hw.accepted) rfl

theorem kick_fd_ne {id' : Id} {ref' : Ref} {fd' : Fd} (href : s.onlineAccount id' = some ref')
    (hk : (s.info ref').kick = some fd') : fd' ≠ caller.fd := by
  obtain ⟨hid, -⟩ := h.kick id' ref' fd' href hk
  rintro rfl
  obtain rfl : id = id' := Option.some.inj (hw.accepted.symm.trans hid)
  obtain rfl : ref = ref' := Option.some.inj (hw.online.symm.trans href)
  cases hw.kick.symm.trans hk

theorem eq_fd {fd' : Fd} (hid : s.accepted fd' = some id) (hof : s.gate.agentOf fd' = some none) : fd' = caller.fd := by
  obtain ⟨c, hc, rfl⟩ | ⟨b, caller', hmem, rfl⟩ | ⟨ref', href', hk⟩ := h.accepted fd' id hid hof
  · exact absurd (Option.some.inj ((h.creating c hc).1.symm.trans hid)) (hw.creating_id_ne h hc)
  · by_cases hb : b = a
    · subst hb
      rw [h.eq_of_logins hw.login hmem]
    · exact absurd rfl (hw.login_id_ne h hmem hb hid)
  · obtain rfl : ref = ref' := Option.some.inj (hw.online.symm.trans href')
    cases hw.kick.symm.trans hk

end Waits

theorem remove (h : Logins s) {fd : Fd} (hlogin : s.gate.agentOf fd = some none → s.accepted fd = none)
    (huser : ∀ a u, (s.agent a).user = some u → s.gate.agentOf u.fd = some (some a) → u.fd ≠ fd) :
    Logins { s with gate := s.gate.remove fd } := by
  have hkeep : ∀ fd', fd' ≠ fd → (s.gate.remove fd).agentOf fd' = s.gate.agentOf fd' :=
    fun fd' hfd => (s.gate.agentOf_remove fd fd').trans (if_neg hfd)
  have hback : ∀ fd' o, (s.gate.remove fd).agentOf fd' = some o → s.gate.agentOf fd' = some o := by
    intro fd' o ho
    rw [s.gate.agentOf_remove] at ho
    split at ho
    · cases ho
    · exact ho
  have hne : ∀ fd' id, s.accepted fd' = some id → s.gate.agentOf fd' = some none → fd' ≠ fd := by
    rintro fd' id hid hof rfl
    cases (hlogin hof).symm.trans hid
  have hnone : ∀ fd' a, s.gate.agentOf fd' = none ∨ s.gate.agentOf fd' = some (some a) →
      (s.gate.remove fd).agentOf fd' = none ∨ (s.gate.remove fd).agentOf fd' = some (some a) := by
    intro fd' a hof
    rw [s.gate.agentOf_remove]
    split
    · exact .inl rfl
    · exact hof
  refine { h with
    agents := fun a => ?agents
    creating := fun c hc => ?creating
    kick := fun id ref fd' href hkick => ?kick
    accepted := fun fd' id hid hfd' => h.accepted fd' id hid (hback _ _ hfd')
    forwarded := fun fd' a hfd' => h.forwarded fd' a (hback _ _ hfd')
    pending := fun fd' hid hfd' => h.pending fd' hid (hback _ _ hfd')
    recycling := fun t r hr => ?recycling
    sockets := fun fd' hfd' => ?sockets }
  case agents =>
    refine (h.agents a).of_gate (fun u hu hof => (hkeep u.fd (huser a u hu hof)).trans hof)
      (fun caller hcaller hl => hkeep _ ?_) (fun fd' hfd' => ?_) fun hu => hu
    · obtain ⟨id, -, hid, -⟩ := h.account a caller (Multiset.mem_filter.mpr ⟨hcaller, hl⟩)
      exact hne _ id hid ((h.agents a).login caller hcaller hl)
    · obtain ⟨hsocket, hof⟩ := (h.agents a).closing fd' hfd'
      exact ⟨hsocket, hnone fd' a hof⟩
  case creating =>
    obtain ⟨hid, hof⟩ := h.creating c hc
    exact ⟨hid, (hkeep _ (hne _ _ hid hof)).trans hof⟩
  case kick =>
    obtain ⟨hid, hof, hplace⟩ := h.kick id ref fd' href hkick
    exact ⟨hid, (hkeep _ (hne _ _ hid hof)).trans hof, hplace⟩
  case recycling =>
    obtain ⟨hsocket, hof⟩ := h.recycling t r hr
    exact ⟨hsocket, hnone r.fd r.agent hof⟩
  case sockets =>
    obtain ⟨hof, hrest⟩ := h.sockets fd' hfd'
    refine ⟨?_, hrest⟩
    rw [s.gate.agentOf_remove]
    split
    · rfl
    · exact hof

/-- A close event for a client whose login is not on its way. The close of a kicked user may have been waiting for this
event, and goes on as a call of `cmd_agent_close`. -/
theorem closeFd (h : Logins s) {fd : Fd} {gate : Gate} (hconnection : gate.connection = s.gate.connection)
    (hsockets : ∀ fd', gate.sockets fd' = none ↔ s.gate.sockets fd' = none)
    (hclosing : ∀ fd', fd' ≠ fd → gate.closing fd' = s.gate.closing fd')
    (hlogin : s.gate.agentOf fd = some none → s.accepted fd = none) : Logins ({ s with gate }.closeFd fd) := by
  have hagent : ∀ fd', gate.agentOf fd' = s.gate.agentOf fd' := fun fd' => by rw [Gate.agentOf, hconnection, Gate.agentOf]
  have hother : ∀ a u, (s.agent a).user = some u → s.gate.agentOf fd ≠ some (some a) → u.fd ≠ fd := by
    rintro a u hu hnot rfl
    rcases (h.agents a).user u hu with ⟨task, hopening⟩ | hof
    · have hin : .opening u.fd task ∈ (s.agent a).logins := Multiset.mem_filter.mpr ⟨hopening, rfl⟩
      obtain ⟨id, -, hid, -⟩ := h.account a _ hin
      cases (hlogin (h.agentOf_login hin)).symm.trans hid
    · exact hnot hof
  have hmono : ∀ a, s.gate.agentOf fd ≠ some (some a) → (s.agent a).Underway s.gate → (s.agent a).Underway gate :=
    fun a hnot hu => hu.mono fun u huser => (hclosing u.fd (hother a u huser hnot)).ge
  obtain hof | hof | ⟨a, hof⟩ : s.gate.agentOf fd = none ∨ s.gate.agentOf fd = some none ∨
      ∃ a, s.gate.agentOf fd = some (some a) := by
    rcases s.gate.agentOf fd with _ | _ | a
    · exact .inl rfl
    · exact .inr (.inl rfl)
    · exact .inr (.inr ⟨a, rfl⟩)
  · have hclose : { s with gate }.closeFd fd = { s with gate } := by
      have hnone : gate.connection fd = none := by
        rw [hconnection]
        exact Option.map_eq_none_iff.mp hof
      simp [Gamed.closeFd, hnone]
    rw [hclose]
    exact h.of_gate hagent hsockets fun a => hmono a (by simp [hof])
  · obtain ⟨c, hc, hnone⟩ := Option.map_eq_some_iff.mp hof
    have hclose : { s with gate }.closeFd fd = { s with gate := gate.remove fd } := by
      simp [Gamed.closeFd, hconnection, hc, hnone]
    have hgate : Logins { s with gate } := h.of_gate hagent hsockets fun a => hmono a (by simp [hof])
    rw [hclose]
    exact hgate.remove (fun _ => hlogin hof) fun a u hu _ => hother a u hu (by simp [hof])
  · obtain ⟨c, hc, hsome⟩ := Option.map_eq_some_iff.mp hof
    have hclose : { s with gate }.closeFd fd = { s.send a (.cmdAgentClose fd) with gate } := by
      simp [Gamed.closeFd, hconnection, hc, hsome]
      rfl
    have hsocket : s.gate.sockets fd ≠ none := fun hnone => by
      cases (h.sockets fd hnone).1.symm.trans hof
    have hsend : Logins (s.send a (.cmdAgentClose fd)) := by
      refine h.send (fun caller hcaller => ?_) (fun fd' hfd' => ?_) fun fd' hfd' => ?_
      · rw [Multiset.mem_singleton.mp hcaller]
        rfl
      · cases Multiset.mem_singleton.mp hfd'
        exact ⟨hsocket, .inr hof⟩
      · cases hfd'
    rw [hclose]
    refine hsend.of_gate hagent hsockets fun b hunder => ?_
    by_cases hb : b = a
    · subst hb
      intro u _
      refine .inr fun hzero => ?_
      have hearly : ((s.send b (.cmdAgentClose fd)).agent b).early = {fd} + (s.agent b).early := by
        rw [Gamed.send, Gamed.agent_setAgent, if_pos rfl]
        exact Agent.total_push Agent.earlyContent _ _
      have hmem : fd ∈ {fd} + (s.agent b).early := Multiset.mem_add.mpr (.inl (Multiset.mem_singleton_self fd))
      rw [← hearly, hzero] at hmem
      cases hmem
    · have hsame : (s.send a (.cmdAgentClose fd)).agent b = s.agent b := by
        rw [Gamed.send, Gamed.agent_setAgent, if_neg hb]
      rw [hsame] at hunder ⊢
      exact hmono b (by simp [hof, Ne.symm hb]) hunder

theorem dispatchMsg (h : Logins s) (fd : Fd) (msg : String) : Logins (s.dispatchMsg fd msg) := by
  cases hc : s.gate.connection fd with
  | none =>
    have heq : s.dispatchMsg fd msg = s := by simp [Gamed.dispatchMsg, hc]
    rw [heq]
    exact h
  | some c =>
    have hsocket : s.gate.sockets fd ≠ none := fun hnone => by
      have hof := (h.sockets fd hnone).1
      simp [Gate.agentOf, hc] at hof
    have hset : ∀ queue fd', s.pendingMsg fd' ≠ none → Function.update s.pendingMsg fd (some queue) fd' ≠ none := by
      intro queue fd' hfd'
      by_cases heq : fd' = fd
      · subst heq
        simp
      · simpa [Function.update_of_ne heq] using hfd'
    unfold Gamed.dispatchMsg
    rw [hc]
    dsimp only
    split
    · refine h.send (fun caller hcaller => ?_) (fun fd' hfd' => ?_) fun fd' hfd' => ?_
      · cases hcaller
      · cases hfd'
      · cases hfd'
    · exact { h with
        authenticating := ⟨h.authenticating.1, fun fd' hfd' =>
          ⟨(h.authenticating.2 fd' hfd').1, hset _ fd' (h.authenticating.2 fd' hfd').2⟩⟩
        pending := fun fd' hid hfd' => hset _ fd' (h.pending fd' hid hfd') }
    · rename_i hagent hpending
      have hof : s.gate.agentOf fd = some none := by simp [Gate.agentOf, hc, hagent]
      have hfree : s.accepted fd = none := by
        by_contra hid
        exact h.pending fd hid hof hpending
      have hout : fd ∉ s.authenticating := fun hin => (h.authenticating.2 fd hin).2 hpending
      refine { h with
        authenticating := ⟨?_, fun fd' hfd' => ?_⟩
        pending := fun fd' hid hfd' => hset _ fd' (h.pending fd' hid hfd')
        sockets := fun fd' hfd' => ?_ }
      · exact List.nodup_append'.mpr ⟨h.authenticating.1, List.nodup_singleton _, by simpa using hout⟩
      · rcases List.mem_append.mp hfd' with hin | hin
        · exact ⟨(h.authenticating.2 fd' hin).1, hset _ fd' (h.authenticating.2 fd' hin).2⟩
        · obtain rfl := List.mem_singleton.mp hin
          exact ⟨hfree, by simp⟩
      · obtain ⟨hnone, hacc, hin⟩ := h.sockets fd' hfd'
        refine ⟨hnone, hacc, ?_⟩
        rw [List.mem_append, List.mem_singleton]
        rintro (hin' | rfl)
        · exact hin hin'
        · exact hsocket hfd'

end Logins

/-- No login for the account is on its way. -/
def Gamed.Free (s : Gamed) (id : Id) : Prop :=
  (∀ c ∈ s.creating, c.id ≠ id) ∧
    ∀ ref ∈ s.onlineAccount id, (s.info ref).kick = none ∧ (s.agent (s.info ref).agent).logins = 0

/-! ### The login that is being handled -/

/-- The login of the client `fd` for the account `id` is in the hands of `gamed`: no other place has it, and no other
login of the account is on its way. -/
structure InHand (s : Gamed) (fd : Fd) (id : Id) : Prop where
  mine : s.accepted fd = some id ∧ s.gate.agentOf fd = some none
  agents : ∀ a, AgentOk s.gate a (s.agent a)
  account : ∀ a, ∀ caller ∈ (s.agent a).logins, ∃ id' ref, id' ≠ id ∧ s.accepted caller.fd = some id' ∧
    s.onlineAccount id' = some ref ∧ (s.info ref).agent = a ∧ (s.info ref).kick = none ∧
      ∀ t, caller = .otherLogin t ∨ caller = .kicking t → t.info = ref
  creating : ∀ c ∈ s.creating, c.id ≠ id ∧ s.accepted c.fd = some c.id ∧ s.gate.agentOf c.fd = some none
  again : ∀ c ∈ s.creating, ∀ ref, s.onlineAccount c.id = some ref → (s.info ref).kick = some c.fd
  kick : ∀ id' ref fd', id' ≠ id → s.onlineAccount id' = some ref → (s.info ref).kick = some fd' →
    s.accepted fd' = some id' ∧ s.gate.agentOf fd' = some none ∧
      ((∃ c ∈ s.creating, c.id = id') ∨
        ((s.agent (s.info ref).agent).logins = 0 ∧ (s.agent (s.info ref).agent).Underway s.gate))
  online : ∀ id' ref, id' ≠ id → s.onlineAccount id' = some ref →
    some id' ∈ (s.agent (s.info ref).agent).held ∨ ∃ c ∈ s.creating, c.id = id'
  accepted : ∀ fd' id', s.accepted fd' = some id' → s.gate.agentOf fd' = some none →
    (fd' = fd ∧ id' = id) ∨ (id' ≠ id ∧ ((∃ c ∈ s.creating, c.fd = fd') ∨
      (∃ a, ∃ caller ∈ (s.agent a).logins, caller.fd = fd') ∨
        ∃ ref, s.onlineAccount id' = some ref ∧ (s.info ref).kick = some fd'))
  authenticating : s.authenticating.Nodup ∧
    ∀ fd ∈ s.authenticating, s.accepted fd = none ∧ s.pendingMsg fd ≠ none
  forwarded : ∀ fd a, s.gate.agentOf fd = some (some a) → s.accepted fd ≠ none
  pending : ∀ fd, s.accepted fd ≠ none → s.gate.agentOf fd = some none → s.pendingMsg fd ≠ none
  recycling : ∀ t r, s.recycling.lookup t = some r →
    s.gate.sockets r.fd ≠ none ∧ (s.gate.agentOf r.fd = none ∨ s.gate.agentOf r.fd = some (some r.agent))
  sockets : ∀ fd, s.gate.sockets fd = none → s.gate.agentOf fd = none ∧ s.accepted fd = none ∧ fd ∉ s.authenticating

namespace InHand

variable {s : Gamed} {fd : Fd} {id : Id}

theorem create (h : InHand s fd id) (task : Option Task)
    (hkick : ∀ ref, s.onlineAccount id = some ref → (s.info ref).kick = some fd) :
    Logins { s with creating := s.creating ++ [⟨fd, id, task⟩] } := by
  have hmem : (⟨fd, id, task⟩ : Creation) ∈ s.creating ++ [⟨fd, id, task⟩] := by simp
  have hcases : ∀ {c : Creation}, c ∈ s.creating ++ [⟨fd, id, task⟩] → c ∈ s.creating ∨ c = ⟨fd, id, task⟩ := by
    intro c hc
    simpa using hc
  refine { h with
    account := fun a caller hcaller => ?account
    creating := fun c hc => ?creating
    again := fun c hc ref href => ?again
    kick := fun id' ref fd' href hk => ?kick
    online := fun id' ref href => ?online
    accepted := fun fd' id' hid hfd => ?accepted }
  case account =>
    obtain ⟨id', ref, -, hrest⟩ := h.account a caller hcaller
    exact ⟨id', ref, hrest⟩
  case creating =>
    rcases hcases hc with hc | rfl
    · exact (h.creating c hc).2
    · exact h.mine
  case again =>
    rcases hcases hc with hc | rfl
    · exact h.again c hc ref href
    · exact hkick ref href
  case kick =>
    by_cases hid : id' = id
    · subst hid
      obtain rfl : fd = fd' := Option.some.inj ((hkick ref href).symm.trans hk)
      exact ⟨h.mine.1, h.mine.2, .inl ⟨_, hmem, rfl⟩⟩
    · obtain ⟨hacc, hof, hplace⟩ := h.kick id' ref fd' hid href hk
      refine ⟨hacc, hof, hplace.imp_left ?_⟩
      rintro ⟨c, hc, heq⟩
      exact ⟨c, List.mem_append_left _ hc, heq⟩
  case online =>
    by_cases hid : id' = id
    · subst hid
      exact .inr ⟨_, hmem, rfl⟩
    · refine (h.online id' ref hid href).imp_right ?_
      rintro ⟨c, hc, heq⟩
      exact ⟨c, List.mem_append_left _ hc, heq⟩
  case accepted =>
    rcases h.accepted fd' id' hid hfd with ⟨rfl, -⟩ | ⟨-, ⟨c, hc, heq⟩ | hplace⟩
    · exact .inl ⟨_, hmem, rfl⟩
    · exact .inl ⟨c, List.mem_append_left _ hc, heq⟩
    · exact .inr hplace

section OpenAgent

variable {agent : Handle} (h : InHand s fd id)
  (hcurrent : ∀ id ref, s.onlineAccount id = some ref → ref < s.nextInfo) (hheld : (s.agent agent).held = 0)

include hheld

theorem ne_of_session {a : Handle} {held : Option Id} (hsession : held ∈ (s.agent a).held) : a ≠ agent := by
  rintro rfl
  rw [hheld] at hsession
  cases hsession

include h

theorem logins_of_held : (s.agent agent).logins = 0 := by
  by_contra hne
  obtain ⟨id', hid'⟩ := (h.agents agent).session hne
  rw [hheld] at hid'
  cases hid'

theorem logins_openAgent (task : Option Task) (b : Handle) : ((s.openAgent fd id task agent).agent b).logins =
    if b = agent then {.opening fd task} else (s.agent b).logins := by
  rw [s.agent_openAgent]
  split
  · rw [Agent.logins_push, h.logins_of_held hheld]
    rfl
  · rfl

theorem openAgent_agents (task : Option Task) (b : Handle) :
    AgentOk s.gate b ((s.openAgent fd id task agent).agent b) := by
  rw [s.agent_openAgent]
  split
  · rename_i hb
    subst hb
    refine (h.agents b).push _ (fun caller hcaller _ => ?_) (fun fd' hfd' => ?_) (fun fd' hfd' => ?_) fun t ht => ?_
    · obtain rfl := Multiset.mem_singleton.mp hcaller
      exact ⟨h.logins_of_held hheld, ⟨id, Multiset.mem_add.mpr (.inl (Multiset.mem_singleton_self _))⟩, h.mine.2⟩
    · cases Multiset.mem_singleton.mp hfd'
    · cases hfd'
    · cases ht
  · exact h.agents b

include hcurrent

theorem openAgent_account (task : Option Task) {b : Handle} {caller : Caller}
    (hcaller : caller ∈ ((s.openAgent fd id task agent).agent b).logins) :
    ∃ id' ref, s.accepted caller.fd = some id' ∧ (s.openAgent fd id task agent).onlineAccount id' = some ref ∧
      ((s.openAgent fd id task agent).info ref).agent = b ∧ ((s.openAgent fd id task agent).info ref).kick = none ∧
        ∀ t, caller = .otherLogin t ∨ caller = .kicking t → t.info = ref := by
  rw [h.logins_openAgent hheld] at hcaller
  split at hcaller
  · rename_i hb
    obtain rfl := Multiset.mem_singleton.mp hcaller
    refine ⟨id, s.nextInfo, h.mine.1, s.onlineAccount_openAgent_self fd id task agent, ?_, ?_, ?_⟩
    · rw [s.info_openAgent_self, hb]
    · rw [s.info_openAgent_self]
    · rintro t (heq | heq) <;> cases heq
  · obtain ⟨id', ref, hid, hacc, href, hrest⟩ := h.account b caller hcaller
    refine ⟨id', ref, hacc, (s.onlineAccount_openAgent_of_ne fd id task agent hid).trans href, ?_⟩
    rw [s.info_openAgent_of_lt fd id task agent (hcurrent id' ref href)]
    exact hrest

omit hheld in
theorem openAgent_again (task : Option Task) {c : Creation} (hc : c ∈ s.creating) {ref : Ref}
    (href : (s.openAgent fd id task agent).onlineAccount c.id = some ref) :
    ((s.openAgent fd id task agent).info ref).kick = some c.fd := by
  rw [s.onlineAccount_openAgent_of_ne fd id task agent (h.creating c hc).1] at href
  rw [s.info_openAgent_of_lt fd id task agent (hcurrent c.id ref href)]
  exact h.again c hc ref href

theorem openAgent_kick (task : Option Task) {id' : Id} {ref : Ref} {fd' : Fd}
    (href : (s.openAgent fd id task agent).onlineAccount id' = some ref)
    (hk : ((s.openAgent fd id task agent).info ref).kick = some fd') :
    s.accepted fd' = some id' ∧ s.gate.agentOf fd' = some none ∧ ((∃ c ∈ s.creating, c.id = id') ∨
      (((s.openAgent fd id task agent).agent ((s.openAgent fd id task agent).info ref).agent).logins = 0 ∧
        ((s.openAgent fd id task agent).agent ((s.openAgent fd id task agent).info ref).agent).Underway s.gate)) := by
  by_cases hid : id' = id
  · subst hid
    obtain rfl : s.nextInfo = ref := Option.some.inj ((s.onlineAccount_openAgent_self fd id' task agent).symm.trans href)
    rw [s.info_openAgent_self] at hk
    cases hk
  · rw [s.onlineAccount_openAgent_of_ne fd id task agent hid] at href
    rw [s.info_openAgent_of_lt fd id task agent (hcurrent id' ref href)] at hk ⊢
    obtain ⟨hacc, hof, hplace⟩ := h.kick id' ref fd' hid href hk
    refine ⟨hacc, hof, ?_⟩
    rcases h.online id' ref hid href with hsession | hc
    · rw [h.logins_openAgent hheld, s.agent_openAgent, if_neg (ne_of_session hheld hsession),
        if_neg (ne_of_session hheld hsession)]
      exact hplace
    · exact .inl hc

theorem openAgent_online (task : Option Task) {id' : Id} {ref : Ref}
    (href : (s.openAgent fd id task agent).onlineAccount id' = some ref) :
    some id' ∈ ((s.openAgent fd id task agent).agent ((s.openAgent fd id task agent).info ref).agent).held ∨
      ∃ c ∈ s.creating, c.id = id' := by
  by_cases hid : id' = id
  · subst hid
    obtain rfl : s.nextInfo = ref := Option.some.inj ((s.onlineAccount_openAgent_self fd id' task agent).symm.trans href)
    refine .inl ?_
    rw [s.info_openAgent_self, s.agent_openAgent, if_pos rfl, Agent.held_push]
    exact Multiset.mem_add.mpr (.inl (Multiset.mem_singleton_self _))
  · rw [s.onlineAccount_openAgent_of_ne fd id task agent hid] at href
    rw [s.info_openAgent_of_lt fd id task agent (hcurrent id' ref href)]
    refine (h.online id' ref hid href).imp_left fun hsession => ?_
    rw [s.agent_openAgent, if_neg (ne_of_session hheld hsession)]
    exact hsession

theorem openAgent_accepted (task : Option Task) {fd' : Fd} {id' : Id} (hid : s.accepted fd' = some id')
    (hof : s.gate.agentOf fd' = some none) :
    (∃ c ∈ s.creating, c.fd = fd') ∨
      (∃ b, ∃ caller ∈ ((s.openAgent fd id task agent).agent b).logins, caller.fd = fd') ∨
        ∃ ref, (s.openAgent fd id task agent).onlineAccount id' = some ref ∧
          ((s.openAgent fd id task agent).info ref).kick = some fd' := by
  rcases h.accepted fd' id' hid hof with ⟨rfl, -⟩ | ⟨hne, hc | ⟨b, caller, hcaller, heq⟩ | ⟨ref, href, hk⟩⟩
  · refine .inr (.inl ⟨agent, .opening fd' task, ?_, rfl⟩)
    rw [h.logins_openAgent hheld, if_pos rfl]
    exact Multiset.mem_singleton_self _
  · exact .inl hc
  · refine .inr (.inl ⟨b, caller, ?_, heq⟩)
    rw [h.logins_openAgent hheld, if_neg]
    · exact hcaller
    · rintro rfl
      rw [h.logins_of_held hheld] at hcaller
      cases hcaller
  · refine .inr (.inr ⟨ref, (s.onlineAccount_openAgent_of_ne fd id task agent hne).trans href, ?_⟩)
    rw [s.info_openAgent_of_lt fd id task agent (hcurrent id' ref href)]
    exact hk

theorem openAgent (task : Option Task) : Logins (s.openAgent fd id task agent) :=
  { h with
    agents := h.openAgent_agents hheld task
    account := fun _ _ => h.openAgent_account hcurrent hheld task
    creating := fun c hc => (h.creating c hc).2
    again := fun _ hc _ => h.openAgent_again hcurrent task hc
    kick := fun _ _ _ => h.openAgent_kick hcurrent hheld task
    online := fun _ _ => h.openAgent_online hcurrent hheld task
    accepted := fun _ _ => h.openAgent_accepted hcurrent hheld task }

end OpenAgent

theorem forwardAgent (h : InHand s fd id) (hcurrent : ∀ id ref, s.onlineAccount id = some ref → ref < s.nextInfo)
    (hpool : ∀ pooled, s.clearPool.lookup id = some pooled → (s.agent pooled.agent).held = 0)
    (hkick : ∀ ref, s.onlineAccount id = some ref → (s.info ref).kick = some fd) (task : Option Task) :
    Logins (s.forwardAgent fd id task) := by
  unfold Gamed.forwardAgent
  split
  · rename_i pooled hlookup
    have htaken : InHand { s with clearPool := s.clearPool.erase id } fd id := { h with }
    exact htaken.openAgent hcurrent (hpool pooled hlookup) task
  · exact h.create task hkick

theorem hold (h : InHand s fd id) {ref : Ref} (href : s.onlineAccount id = some ref) (hkick : (s.info ref).kick = none)
    (hzero : (s.agent (s.info ref).agent).logins = 0) (hsession : some id ∈ (s.agent (s.info ref).agent).held)
    (hcard : Multiset.card (s.agent (s.info ref).agent).held ≤ 1) {x : Agent} {caller : Caller}
    (hcaller : caller = .otherLogin ⟨fd, ref⟩ ∨ caller = .kicking ⟨fd, ref⟩) (hok : AgentOk s.gate (s.info ref).agent x)
    (hlogin : x.logins = {caller}) (hless : ∀ held ∈ (s.agent (s.info ref).agent).held, held ∈ x.held) :
    Logins (s.setAgent (s.info ref).agent x) := by
  have hfd : caller.fd = fd := by
    rcases hcaller with rfl | rfl <;> rfl
  have hlogins : ∀ b, ((s.setAgent (s.info ref).agent x).agent b).logins =
      if b = (s.info ref).agent then {caller} else (s.agent b).logins := fun b => by
    rw [Gamed.logins_setAgent, hlogin]
  have hheld : ∀ b held, held ∈ (s.agent b).held → held ∈ ((s.setAgent (s.info ref).agent x).agent b).held :=
    fun b held => Gamed.mem_held_setAgent (hless held)
  refine { h with
    agents := Gamed.agentOk_setAgent h.agents hok
    account := fun b caller' hmem => ?account
    creating := fun c hc => (h.creating c hc).2
    kick := fun id' ref' fd' href' hk => ?kick
    online := fun id' ref' href' => ?online
    accepted := fun fd' id' hid hof => ?accepted }
  case account =>
    rw [hlogins] at hmem
    split at hmem
    · rename_i hb
      obtain rfl := Multiset.mem_singleton.mp hmem
      refine ⟨id, ref, hfd ▸ h.mine.1, href, hb.symm, hkick, ?_⟩
      rintro t (rfl | rfl) <;> rcases hcaller with heq | heq <;> cases heq <;> rfl
    · obtain ⟨id', ref', -, hrest⟩ := h.account b caller' hmem
      exact ⟨id', ref', hrest⟩
  case kick =>
    by_cases hid : id' = id
    · subst hid
      obtain rfl : ref = ref' := Option.some.inj (href.symm.trans href')
      cases hkick.symm.trans hk
    · obtain ⟨hacc, hof, hplace⟩ := h.kick id' ref' fd' hid href' hk
      refine ⟨hacc, hof, ?_⟩
      rcases h.online id' ref' hid href' with hother | hc
      · have hne : (s.info ref').agent ≠ (s.info ref).agent := fun heq => by
          rw [heq] at hother
          exact hid (Option.some.inj (Agent.eq_of_mem_held hcard hother hsession))
        refine hplace.imp_right fun hplace => ?_
        change ((s.setAgent (s.info ref).agent x).agent (s.info ref').agent).logins = 0 ∧
          Agent.Underway s.gate ((s.setAgent (s.info ref).agent x).agent (s.info ref').agent)
        rw [Gamed.agent_setAgent, if_neg hne]
        exact hplace
      · exact .inl hc
  case online =>
    by_cases hid : id' = id
    · subst hid
      obtain rfl : ref = ref' := Option.some.inj (href.symm.trans href')
      exact .inl (hheld _ _ hsession)
    · exact (h.online id' ref' hid href').imp_left (hheld _ _)
  case accepted =>
    rcases h.accepted fd' id' hid hof with ⟨rfl, -⟩ | ⟨-, hc | ⟨b, caller', hmem, heq⟩ | hk⟩
    · refine .inr (.inl ⟨(s.info ref).agent, caller, ?_, hfd⟩)
      rw [hlogins, if_pos rfl]
      exact Multiset.mem_singleton_self _
    · exact .inl hc
    · refine .inr (.inl ⟨b, caller', ?_, heq⟩)
      rw [hlogins, if_neg]
      · exact hmem
      · rintro rfl
        rw [hzero] at hmem
        cases hmem
    · exact .inr (.inr hk)

theorem call (h : InHand s fd id) {ref : Ref} (href : s.onlineAccount id = some ref) (hkick : (s.info ref).kick = none)
    (hzero : (s.agent (s.info ref).agent).logins = 0) (hsession : some id ∈ (s.agent (s.info ref).agent).held)
    (hcard : Multiset.card (s.agent (s.info ref).agent).held ≤ 1) {msg : ToAgent} {caller : Caller}
    (hcontent : Agent.callerContent.inbox msg = {caller})
    (hcaller : caller = .otherLogin ⟨fd, ref⟩ ∨ caller = .kicking ⟨fd, ref⟩) (hlate : Agent.lateContent.inbox msg = 0)
    (hunder : ∀ t, msg = .kickDone (some t) → (s.agent (s.info ref).agent).Underway s.gate) :
    Logins (s.send (s.info ref).agent msg) := by
  have hfd : caller.fd = fd ∧ caller.isLogin = true := by
    rcases hcaller with rfl | rfl <;> exact ⟨rfl, rfl⟩
  refine h.hold href hkick hzero hsession hcard hcaller ?_ ?_ fun held hmem => ?_
  · refine (h.agents _).push msg (fun caller' hmem _ => ?_) (fun fd' hfd' => ?_) (fun fd' hfd' => ?_) hunder
    · rw [hcontent] at hmem
      obtain rfl := Multiset.mem_singleton.mp hmem
      exact ⟨hzero, ⟨id, Multiset.mem_add.mpr (.inr hsession)⟩, hfd.1 ▸ h.mine.2⟩
    · rw [hcontent] at hfd'
      rw [← Multiset.mem_singleton.mp hfd'] at hfd
      cases hfd.2
    · rw [hlate] at hfd'
      cases hfd'
  · rw [Agent.logins_push, hzero, hcontent, add_zero]
    exact Multiset.filter_eq_self.mpr fun caller' hmem => by
      rw [Multiset.mem_singleton.mp hmem]
      exact hfd.2
  · rw [Agent.held_push]
    exact Multiset.mem_add.mpr (.inr hmem)

theorem logKick (h : InHand s fd id) {ref : Ref} (href : s.onlineAccount id = some ref)
    (hkick : (s.info ref).kick = none) (hzero : (s.agent (s.info ref).agent).logins = 0)
    (hsession : some id ∈ (s.agent (s.info ref).agent).held)
    (hcard : Multiset.card (s.agent (s.info ref).agent).held ≤ 1) {userFd : Fd}
    (huser : ∀ u, (s.agent (s.info ref).agent).user = some u → userFd = u.fd) :
    Logins (s.setAgent (s.info ref).agent { s.agent (s.info ref).agent with
      kicks := (s.agent (s.info ref).agent).kicks ++ [(userFd, some ⟨fd, ref⟩)] }) := by
  refine h.hold href hkick hzero hsession hcard (.inr rfl) ?_ ?_ fun held hmem => ?_
  · refine (h.agents _).pushKick fun t ht => ?_
    obtain rfl := Option.some.inj ht
    exact ⟨hzero, ⟨id, hsession⟩, h.mine.2, huser⟩
  · rw [Agent.logins_pushKick, hzero]
    rfl
  · rw [Agent.held_pushKick]
    exact hmem

theorem wait (h : InHand s fd id) {ref : Ref} (href : s.onlineAccount id = some ref) (hkick : (s.info ref).kick = none)
    (hzero : (s.agent (s.info ref).agent).logins = 0) (hsession : some id ∈ (s.agent (s.info ref).agent).held)
    (hcard : Multiset.card (s.agent (s.info ref).agent).held ≤ 1)
    (hunder : (s.agent (s.info ref).agent).Underway s.gate) :
    Logins { s with info := Function.update s.info ref { s.info ref with kick := some fd } } := by
  -- the table is that of no other account
  have hne : ∀ id' ref', id' ≠ id → s.onlineAccount id' = some ref' → ref' ≠ ref := by
    rintro id' ref' hid href' rfl
    rcases h.online id' ref' hid href' with hother | ⟨c, hc, rfl⟩
    · exact hid (Option.some.inj (Agent.eq_of_mem_held hcard hother hsession))
    · cases hkick.symm.trans (h.again c hc ref' href')
  have hinfo : ∀ ref', ref' ≠ ref → Function.update s.info ref { s.info ref with kick := some fd } ref' = s.info ref' :=
    fun ref' hr => Function.update_of_ne hr _ _
  have hself : Function.update s.info ref { s.info ref with kick := some fd } ref = { s.info ref with kick := some fd } :=
    Function.update_self _ _ _
  refine { h with
    account := fun b caller hmem => ?account
    creating := fun c hc => (h.creating c hc).2
    again := fun c hc ref' href' => ?again
    kick := fun id' ref' fd' href' hk => ?kick
    online := fun id' ref' href' => ?online
    accepted := fun fd' id' hid hof => ?accepted }
  case account =>
    obtain ⟨id', ref', hid, hacc, href', ha, hk, htake⟩ := h.account b caller hmem
    have hi := hinfo ref' (hne id' ref' hid href')
    exact ⟨id', ref', hacc, href', (congrArg Info.agent hi).trans ha, (congrArg Info.kick hi).trans hk, htake⟩
  case again =>
    change (Function.update s.info ref { s.info ref with kick := some fd } ref').kick = _
    rw [hinfo ref' (hne c.id ref' (h.creating c hc).1 href')]
    exact h.again c hc ref' href'
  case kick =>
    change (Function.update s.info ref { s.info ref with kick := some fd } ref').kick = _ at hk
    change _ ∧ _ ∧ (_ ∨
      (s.agent (Function.update s.info ref { s.info ref with kick := some fd } ref').agent).logins = 0 ∧
        (s.agent (Function.update s.info ref { s.info ref with kick := some fd } ref').agent).Underway s.gate)
    by_cases hid : id' = id
    · subst hid
      obtain rfl : ref = ref' := Option.some.inj (href.symm.trans href')
      rw [hself] at hk ⊢
      obtain rfl : fd = fd' := Option.some.inj hk
      exact ⟨h.mine.1, h.mine.2, .inr ⟨hzero, hunder⟩⟩
    · rw [hinfo ref' (hne id' ref' hid href')] at hk ⊢
      exact h.kick id' ref' fd' hid href' hk
  case online =>
    change some id' ∈ (s.agent (Function.update s.info ref { s.info ref with kick := some fd } ref').agent).held ∨ _
    by_cases hid : id' = id
    · subst hid
      obtain rfl : ref = ref' := Option.some.inj (href.symm.trans href')
      rw [hself]
      exact .inl hsession
    · rw [hinfo ref' (hne id' ref' hid href')]
      exact h.online id' ref' hid href'
  case accepted =>
    rcases h.accepted fd' id' hid hof with ⟨rfl, rfl⟩ | ⟨hne', hc | hl | ⟨ref', href', hk⟩⟩
    · exact .inr (.inr ⟨ref, href, congrArg Info.kick hself⟩)
    · exact .inl hc
    · exact .inr (.inl hl)
    · exact .inr (.inr ⟨ref', href', (congrArg Info.kick (hinfo ref' (hne id' ref' hne' href'))).trans hk⟩)

end InHand

namespace Logins

variable {s : Gamed}

theorem not_accepted (h : Logins s) {id : Id} (hfree : s.Free id) {fd : Fd} (hid : s.accepted fd = some id) :
    s.gate.agentOf fd ≠ some none := by
  intro hof
  rcases h.accepted fd id hid hof with ⟨c, hc, rfl⟩ | ⟨a, caller, hcaller, rfl⟩ | ⟨ref, href, hk⟩
  · exact hfree.1 c hc (Option.some.inj ((h.creating c hc).1.symm.trans hid))
  · obtain ⟨id', ref, hid', href, rfl, -⟩ := h.account a caller hcaller
    obtain rfl : id = id' := Option.some.inj (hid.symm.trans hid')
    rw [(hfree.2 ref href).2] at hcaller
    cases hcaller
  · cases (hfree.2 ref href).1.symm.trans hk

theorem accept (h : Logins s) {id : Id} (hidle : s.Free id) {fd : Fd} (hauth : fd ∈ s.authenticating)
    (hof : s.gate.agentOf fd ≠ none) :
    InHand { s with
      authenticating := s.authenticating.erase fd
      accepted := Function.update s.accepted fd (some id) } fd id := by
  obtain ⟨hfree, hpending⟩ := h.authenticating.2 fd hauth
  have hclient : s.gate.agentOf fd = some none := by
    rcases heq : s.gate.agentOf fd with _ | _ | a
    · exact absurd heq hof
    · rfl
    · exact absurd hfree (h.forwarded fd a heq)
  have hkeep : ∀ fd' id', s.accepted fd' = some id' → Function.update s.accepted fd (some id) fd' = some id' := by
    intro fd' id' hid
    rw [Function.update_of_ne]
    · exact hid
    · rintro rfl
      cases hfree.symm.trans hid
  have hnot : ∀ fd' id', s.accepted fd' = some id' → s.gate.agentOf fd' = some none → id' ≠ id := by
    rintro fd' id' hid hof' rfl
    exact h.not_accepted hidle hid hof'
  refine { h with
    mine := ⟨Function.update_self _ _ _, hclient⟩
    account := fun a caller hcaller => ?account
    creating := fun c hc => ?creating
    kick := fun id' ref fd' _ href hk => ?kick
    online := fun id' ref _ href => h.online id' ref href
    accepted := fun fd' id' hid hof' => ?accepted
    authenticating := ⟨?nodup, ?waiting⟩
    forwarded := fun fd' a hfd' => ?forwarded
    pending := fun fd' hid hfd' => ?pending
    sockets := fun fd' hfd' => ?sockets }
  case account =>
    obtain ⟨id', ref, hid, hrest⟩ := h.account a caller hcaller
    exact ⟨id', ref, hnot _ _ hid (h.agentOf_login hcaller), hkeep _ _ hid, hrest⟩
  case creating =>
    obtain ⟨hid, hof'⟩ := h.creating c hc
    exact ⟨hidle.1 c hc, hkeep _ _ hid, hof'⟩
  case kick =>
    obtain ⟨hid, hof', hplace⟩ := h.kick id' ref fd' href hk
    exact ⟨hkeep _ _ hid, hof', hplace⟩
  case accepted =>
    rcases update_some_cases hid with ⟨rfl, rfl⟩ | ⟨-, hid⟩
    · exact .inl ⟨rfl, rfl⟩
    · exact .inr ⟨hnot fd' id' hid hof', h.accepted fd' id' hid hof'⟩
  case nodup =>
    exact h.authenticating.1.erase fd
  case waiting =>
    intro fd' hin
    have hne : fd' ≠ fd := by
      rintro rfl
      exact (List.Nodup.not_mem_erase h.authenticating.1) hin
    refine ⟨?_, (h.authenticating.2 fd' (List.mem_of_mem_erase hin)).2⟩
    exact (Function.update_of_ne hne _ _).trans (h.authenticating.2 fd' (List.mem_of_mem_erase hin)).1
  case forwarded =>
    obtain ⟨id', hid⟩ := Option.ne_none_iff_exists'.mp (h.forwarded fd' a hfd')
    change Function.update s.accepted fd (some id) fd' ≠ none
    rw [hkeep fd' id' hid]
    exact Option.some_ne_none _
  case pending =>
    by_cases hne : fd' = fd
    · subst hne
      exact hpending
    · exact h.pending fd' ((Function.update_of_ne hne (some id) s.accepted) ▸ hid) hfd'
  case sockets =>
    obtain ⟨hnone, hacc, hin⟩ := h.sockets fd' hfd'
    have hne : fd' ≠ fd := by
      rintro rfl
      exact hin hauth
    exact ⟨hnone, (Function.update_of_ne hne _ _).trans hacc, fun hin' => hin (List.mem_of_mem_erase hin')⟩

theorem create (h : Logins s) (hsessions : Sessions s) {i : Nat} {c : Creation} (hc : s.creating[i]? = some c) :
    InHand { s with creating := s.creating.eraseIdx i, nextAgent := s.nextAgent + 1 } c.fd c.id := by
  have hmem : c ∈ s.creating := List.mem_of_getElem? hc
  have hsub : ∀ c' ∈ s.creating.eraseIdx i, c' ∈ s.creating := fun c' hc' => List.eraseIdx_subset hc'
  have hothers : ∀ c' ∈ s.creating.eraseIdx i, c'.id ≠ c.id := hsessions.others_creating hc
  have hkeep : ∀ id', id' ≠ c.id → (∃ c' ∈ s.creating, c'.id = id') → ∃ c' ∈ s.creating.eraseIdx i, c'.id = id' := by
    rintro id' hid ⟨c', hc', rfl⟩
    exact ⟨c', mem_eraseIdx_of_ne hc hc' hid, rfl⟩
  -- the table of the account, if there is one, waits for this login
  have hkick : ∀ ref, s.onlineAccount c.id = some ref → (s.info ref).kick = some c.fd := h.again c hmem
  have hlogin : ∀ a caller, caller ∈ (s.agent a).logins → s.accepted caller.fd ≠ some c.id := by
    intro a caller hcaller hid
    obtain ⟨id', ref, hid', href, -, hk, -⟩ := h.account a caller hcaller
    obtain rfl : c.id = id' := Option.some.inj (hid.symm.trans hid')
    cases (hkick ref href).symm.trans hk
  refine { h with
    mine := h.creating c hmem
    account := fun a caller hcaller => ?account
    creating := fun c' hc' => ⟨hothers c' hc', h.creating c' (hsub c' hc')⟩
    again := fun c' hc' => h.again c' (hsub c' hc')
    kick := fun id' ref fd' hid href hk => ?kick
    online := fun id' ref hid href => ?online
    accepted := fun fd' id' hid hof => ?accepted }
  case account =>
    obtain ⟨id', ref, hid, hrest⟩ := h.account a caller hcaller
    refine ⟨id', ref, ?_, hid, hrest⟩
    rintro rfl
    exact hlogin a caller hcaller hid
  case kick =>
    obtain ⟨hacc, hof, hplace⟩ := h.kick id' ref fd' href hk
    exact ⟨hacc, hof, hplace.imp_left (hkeep id' hid)⟩
  case online =>
    exact (h.online id' ref href).imp_right (hkeep id' hid)
  case accepted =>
    by_cases heq : id' = c.id
    · subst heq
      refine .inl ⟨?_, rfl⟩
      rcases h.accepted fd' c.id hid hof with ⟨c', hc', rfl⟩ | ⟨a, caller, hcaller, rfl⟩ | ⟨ref, href, hk⟩
      · have hid' : c'.id = c.id := Option.some.inj ((h.creating c' hc').1.symm.trans hid)
        rw [hsessions.eq_of_creating hmem hc' hid'.symm]
      · exact absurd hid (hlogin a caller hcaller)
      · exact Option.some.inj (hk.symm.trans (hkick ref href))
    · refine .inr ⟨heq, (h.accepted fd' id' hid hof).imp_left ?_⟩
      rintro ⟨c', hc', rfl⟩
      have hid' : c'.id = id' := Option.some.inj ((h.creating c' hc').1.symm.trans hid)
      exact ⟨c', mem_eraseIdx_of_ne hc hc' (hid' ▸ heq), rfl⟩

section Take

variable {a : Handle} {x : Agent} {caller : Caller} {id : Id} {ref : Ref} (h : Logins s) (hw : Waits s a caller id ref)

include h hw

theorem take_account (hzero : x.logins = 0) {b : Handle} {caller' : Caller}
    (hmem : caller' ∈ ((s.setAgent a x).agent b).logins) :
    ∃ id' ref', id' ≠ id ∧ s.accepted caller'.fd = some id' ∧ s.onlineAccount id' = some ref' ∧
      (s.info ref').agent = b ∧ (s.info ref').kick = none ∧
        ∀ t, caller' = .otherLogin t ∨ caller' = .kicking t → t.info = ref' := by
  rw [Gamed.logins_setAgent] at hmem
  split at hmem
  · rw [hzero] at hmem
    cases hmem
  · rename_i hb
    obtain ⟨id', ref', hid, hrest⟩ := h.account b caller' hmem
    exact ⟨id', ref', hw.login_id_ne h hmem hb hid, hid, hrest⟩

theorem take_kick (x : Agent) {id' : Id} {ref' : Ref} {fd' : Fd} (href : s.onlineAccount id' = some ref')
    (hk : (s.info ref').kick = some fd') :
    s.accepted fd' = some id' ∧ s.gate.agentOf fd' = some none ∧ ((∃ c ∈ s.creating, c.id = id') ∨
      (((s.setAgent a x).agent (s.info ref').agent).logins = 0 ∧
        ((s.setAgent a x).agent (s.info ref').agent).Underway s.gate)) := by
  obtain ⟨hid, hof, hplace⟩ := h.kick id' ref' fd' href hk
  refine ⟨hid, hof, hplace.imp_right ?_⟩
  rintro ⟨hl, hu⟩
  rw [Gamed.agent_setAgent, if_neg (hw.ne_of_logins hl)]
  exact ⟨hl, hu⟩

theorem take_accepted (x : Agent) {fd' : Fd} {id' : Id} (hid : s.accepted fd' = some id')
    (hof : s.gate.agentOf fd' = some none) :
    (fd' = caller.fd ∧ id' = id) ∨ (id' ≠ id ∧ ((∃ c ∈ s.creating, c.fd = fd') ∨
      (∃ b, ∃ caller' ∈ ((s.setAgent a x).agent b).logins, caller'.fd = fd') ∨
        ∃ ref', s.onlineAccount id' = some ref' ∧ (s.info ref').kick = some fd')) := by
  by_cases heq : id' = id
  · subst heq
    exact .inl ⟨hw.eq_fd h hid hof, rfl⟩
  · refine .inr ⟨heq, (h.accepted fd' id' hid hof).imp_right fun hplace => hplace.imp_left ?_⟩
    rintro ⟨b, caller', hmem, rfl⟩
    have hb : b ≠ a := by
      rintro rfl
      rw [h.eq_of_logins hw.login hmem] at hid
      exact heq (Option.some.inj (hid.symm.trans hw.accepted))
    refine ⟨b, caller', ?_, rfl⟩
    rw [Gamed.logins_setAgent, if_neg hb]
    exact hmem

theorem take (hok : AgentOk s.gate a x) (hzero : x.logins = 0) (hheld : x.held = (s.agent a).held) :
    InHand (s.setAgent a x) caller.fd id :=
  { h with
    mine := ⟨hw.accepted, hw.agentOf_fd h⟩
    agents := Gamed.agentOk_setAgent h.agents hok
    account := fun _ _ => h.take_account hw hzero
    creating := fun c hc => ⟨hw.creating_id_ne h hc, h.creating c hc⟩
    kick := fun _ _ _ _ => h.take_kick hw x
    online := fun id' ref' _ href => (h.online id' ref' href).imp_left (Gamed.mem_held_setAgent fun hs => hheld ▸ hs)
    accepted := fun _ _ => h.take_accepted hw x }

end Take

/-- A takeover that waits for an agent is taken from it. -/
theorem takeover (h : Logins s) {a : Handle} {x : Agent} {t : Takeover} {caller : Caller}
    (hcaller : caller = .otherLogin t ∨ caller = .kicking t) (hin : caller ∈ (s.agent a).logins)
    (hok : AgentOk s.gate a x) (hzero : x.logins = 0) (hheld : x.held = (s.agent a).held) :
    ∃ id, InHand (s.setAgent a x) t.fd id ∧ s.onlineAccount id = some t.info ∧ (s.info t.info).agent = a ∧
      (s.info t.info).kick = none ∧ some id ∈ x.held := by
  obtain ⟨id, ref, hw, htake⟩ := h.exists_waits hin
  obtain rfl : t.info = ref := htake t hcaller
  have hfd : caller.fd = t.fd := by
    rcases hcaller with rfl | rfl <;> rfl
  exact ⟨id, hfd ▸ h.take hw hok hzero hheld, hw.online, hw.agent, hw.kick, hheld.symm ▸ hw.session h⟩

theorem takeMessage (h : Logins s) {a : Handle} {msg : ToGamed} {outbox : List ToGamed} {t : Takeover} {caller : Caller}
    (houtbox : (s.agent a).outbox = msg :: outbox) (hcontent : Agent.callerContent.outbox msg = {caller})
    (hcaller : caller = .otherLogin t ∨ caller = .kicking t) :
    ∃ id, InHand (s.popOutbox a outbox) t.fd id ∧ s.onlineAccount id = some t.info ∧ (s.info t.info).agent = a ∧
      (s.info t.info).kick = none ∧ ((s.popOutbox a outbox).agent a).logins = 0 ∧
        some id ∈ ((s.popOutbox a outbox).agent a).held ∧
          ((s.popOutbox a outbox).agent a).held = (s.agent a).held := by
  have hlogin : caller.isLogin = true := by
    rcases hcaller with rfl | rfl <;> rfl
  have hmsg : Agent.heldContent.outbox msg = 0 := by
    cases msg with
    | cmdGamedClose id fd => rcases hcaller with rfl | rfl <;> cases Multiset.singleton_inj.mp hcontent
    | _ => rfl
  have hfilter : (Agent.callerContent.outbox msg).filter (fun caller => caller.isLogin) = {caller} := by
    rw [hcontent]
    exact Multiset.filter_eq_self.mpr fun caller' hmem => by rw [Multiset.mem_singleton.mp hmem]; exact hlogin
  have hlogins : (s.agent a).logins = {caller} + { s.agent a with outbox }.logins := by
    rw [Agent.logins_pop_outbox houtbox, hfilter]
  have hheld : { s.agent a with outbox }.held = (s.agent a).held := by
    rw [Agent.held_pop_outbox houtbox, hmsg, zero_add]
  have hok : AgentOk s.gate a { s.agent a with outbox } := by
    refine (h.agents a).pop houtbox (fun fd task hmem => ?_) fun id fd heq => ?_
    · rw [hcontent] at hmem
      rcases hcaller with rfl | rfl <;> cases Multiset.mem_singleton.mp hmem
    · subst heq
      exact absurd hmsg (Multiset.singleton_ne_zero _)
  have hin : caller ∈ (s.agent a).logins := by
    rw [hlogins]
    exact Multiset.mem_add.mpr (.inl (Multiset.mem_singleton_self _))
  have hzero := (h.agents a).no_other hlogins
  obtain ⟨id, hhand, href, hagent, hkick, hsession⟩ := h.takeover hcaller hin hok hzero hheld
  have hpopped := s.agent_popOutbox_self a outbox
  rw [hpopped]
  exact ⟨id, hhand, href, hagent, hkick, hzero, hsession, hheld⟩

theorem takeKick (h : Logins s) {a : Handle} {i : Nat} {fd : Fd} {t : Takeover} {x : Agent}
    (hkick : (s.agent a).kicks[i]? = some (fd, some t))
    (hx : x = { s.agent a with kicks := (s.agent a).kicks.eraseIdx i }) :
    ∃ id, InHand (s.setAgent a x) t.fd id ∧ s.onlineAccount id = some t.info ∧ (s.info t.info).agent = a ∧
      (s.info t.info).kick = none ∧ ((s.setAgent a x).agent a).logins = 0 ∧
        some id ∈ ((s.setAgent a x).agent a).held ∧ ((s.setAgent a x).agent a).held = (s.agent a).held := by
  subst hx
  have hlogins : (s.agent a).logins =
      {.kicking t} + { s.agent a with kicks := (s.agent a).kicks.eraseIdx i }.logins := Agent.logins_eraseKick hkick
  have hin : .kicking t ∈ (s.agent a).logins := by
    rw [hlogins]
    exact Multiset.mem_add.mpr (.inl (Multiset.mem_singleton_self _))
  have hzero := (h.agents a).no_other hlogins
  have hheld := Agent.held_eraseKick hkick
  obtain ⟨id, hhand, href, hagent, hnone, hsession⟩ :=
    h.takeover (.inr rfl) hin ((h.agents a).eraseKick hkick) hzero hheld
  rw [Gamed.agent_setAgent, if_pos rfl]
  exact ⟨id, hhand, href, hagent, hnone, hzero, hsession, hheld⟩

section Forward

variable {a : Handle} {fd : Fd} {task : Option Task} {ok : Bool} {outbox : List ToGamed}

theorem mem_logins_of_opening (houtbox : (s.agent a).outbox = .answer (.opening fd task) ok :: outbox) :
    .opening fd task ∈ (s.agent a).logins := by
  rw [Agent.logins_pop_outbox houtbox]
  exact Multiset.mem_add.mpr (.inl (Multiset.mem_singleton_self _))

theorem mem_logins_of_popOutbox (houtbox : (s.agent a).outbox = .answer (.opening fd task) ok :: outbox) {b : Handle}
    {caller : Caller} (hcaller : caller ∈ ((s.popOutbox a outbox).agent b).logins) : caller ∈ (s.agent b).logins := by
  by_cases hb : b = a
  · subst hb
    rw [s.agent_popOutbox_self] at hcaller
    rw [Agent.logins_pop_outbox houtbox]
    exact Multiset.mem_add.mpr (.inr hcaller)
  · rwa [Gamed.agent_popOutbox_of_ne outbox hb] at hcaller

variable {id : Id} {ref : Ref} (h : Logins s) (houtbox : (s.agent a).outbox = .answer (.opening fd task) ok :: outbox)
  (hw : Waits s a (.opening fd task) id ref)

include h hw

theorem agentOf_forward_opening : (s.gate.forward fd a).agentOf fd = some (some a) := by
  have hof : s.gate.agentOf fd = some none := hw.agentOf_fd h
  rw [s.gate.agentOf_forward, if_pos rfl, hof]
  rfl

theorem ne_opening_of_forward {fd' : Fd} (hof : (s.gate.forward fd a).agentOf fd' = some none) : fd' ≠ fd := by
  rintro rfl
  cases (h.agentOf_forward_opening hw).symm.trans hof

theorem ne_opening_of_closed {fd' : Fd} {b : Handle}
    (hof : s.gate.agentOf fd' = none ∨ s.gate.agentOf fd' = some (some b)) : fd' ≠ fd := by
  have hopening : s.gate.agentOf fd = some none := hw.agentOf_fd h
  rintro rfl
  rw [hopening] at hof
  simp at hof

include houtbox in
theorem forward_agents (b : Handle) : AgentOk (s.gate.forward fd a) b ((s.popOutbox a outbox).agent b) := by
  by_cases hb : b = a
  · subst hb
    rw [s.agent_popOutbox_self]
    exact (h.agents b).opening_done houtbox (h.agentOf_forward_opening hw)
      (fun fd' hfd => s.gate.agentOf_forward_of_ne b hfd) (s.gate.sockets_forward fd b)
  · rw [Gamed.agent_popOutbox_of_ne outbox hb]
    refine (h.agents b).of_gate (fun u hu hof => ?_) (fun caller hcaller hlogin => ?_) (fun fd' hfd' => ?_) fun hu => ?_
    · exact (s.gate.agentOf_forward_of_ne a (h.ne_opening_of_closed hw (.inr hof))).trans hof
    · exact s.gate.agentOf_forward_of_ne a
        (hw.login_fd_ne h (Multiset.mem_filter.mpr ⟨hcaller, hlogin⟩) hb)
    · obtain ⟨hsocket, hof⟩ := (h.agents b).closing fd' hfd'
      rw [s.gate.sockets_forward, s.gate.agentOf_forward_of_ne a (h.ne_opening_of_closed hw hof)]
      exact ⟨hsocket, hof⟩
    · exact hu.mono fun u _ => (s.gate.closing_forward fd u.fd a).ge

theorem forward_kick {id' : Id} {ref' : Ref} {fd' : Fd} (href : s.onlineAccount id' = some ref')
    (hk : (s.info ref').kick = some fd') :
    s.accepted fd' = some id' ∧ (s.gate.forward fd a).agentOf fd' = some none ∧ ((∃ c ∈ s.creating, c.id = id') ∨
      (((s.popOutbox a outbox).agent (s.info ref').agent).logins = 0 ∧
        ((s.popOutbox a outbox).agent (s.info ref').agent).Underway (s.gate.forward fd a))) := by
  obtain ⟨hid, hof, hplace⟩ := h.kick id' ref' fd' href hk
  refine ⟨hid, (s.gate.agentOf_forward_of_ne a (hw.kick_fd_ne h href hk)).trans hof, hplace.imp_right ?_⟩
  rintro ⟨hl, hu⟩
  rw [Gamed.agent_popOutbox_of_ne outbox (hw.ne_of_logins hl)]
  exact ⟨hl, hu.mono fun u _ => (s.gate.closing_forward fd u.fd a).ge⟩

omit hw in
include houtbox in
theorem forward_online {id : Id} {ref : Ref} (href : s.onlineAccount id = some ref) :
    some id ∈ ((s.popOutbox a outbox).agent (s.info ref).agent).held ∨ ∃ c ∈ s.creating, c.id = id := by
  refine (h.online id ref href).imp_left fun hs => ?_
  by_cases hb : (s.info ref).agent = a
  · rw [hb, Agent.held_pop_outbox houtbox] at hs
    rw [hb, s.agent_popOutbox_self]
    exact (Multiset.mem_add.mp hs).resolve_left (Multiset.notMem_zero _)
  · rwa [Gamed.agent_popOutbox_of_ne outbox hb]

theorem forward_accepted {fd' : Fd} {id' : Id} (hid : s.accepted fd' = some id')
    (hof : (s.gate.forward fd a).agentOf fd' = some none) :
    (∃ c ∈ s.creating, c.fd = fd') ∨ (∃ b, ∃ caller ∈ ((s.popOutbox a outbox).agent b).logins, caller.fd = fd') ∨
      ∃ ref', s.onlineAccount id' = some ref' ∧ (s.info ref').kick = some fd' := by
  have hne := h.ne_opening_of_forward hw hof
  rw [s.gate.agentOf_forward_of_ne a hne] at hof
  refine (h.accepted fd' id' hid hof).imp_right fun hplace => hplace.imp_left ?_
  rintro ⟨b, caller, hcaller, rfl⟩
  have hb : b ≠ a := by
    rintro rfl
    rw [h.eq_of_logins hw.login hcaller] at hne
    exact hne rfl
  exact ⟨b, caller, by rwa [Gamed.agent_popOutbox_of_ne outbox hb], rfl⟩

theorem forward_authenticating {fd' : Fd} (hfd' : fd' ∈ s.authenticating) :
    s.accepted fd' = none ∧ Function.update s.pendingMsg fd none fd' ≠ none := by
  obtain ⟨hfree, hpending⟩ := h.authenticating.2 fd' hfd'
  refine ⟨hfree, ?_⟩
  rw [Function.update_of_ne]
  · exact hpending
  · rintro rfl
    cases hfree.symm.trans hw.accepted

theorem forward_forwarded {fd' : Fd} {b : Handle} (hof : (s.gate.forward fd a).agentOf fd' = some (some b)) :
    s.accepted fd' ≠ none := by
  by_cases hfd : fd' = fd
  · subst hfd
    exact fun hnone => by cases hnone.symm.trans hw.accepted
  · exact h.forwarded fd' b ((s.gate.agentOf_forward_of_ne a hfd).symm.trans hof)

theorem forward_pending {fd' : Fd} (hid : s.accepted fd' ≠ none)
    (hof : (s.gate.forward fd a).agentOf fd' = some none) : Function.update s.pendingMsg fd none fd' ≠ none := by
  have hne := h.ne_opening_of_forward hw hof
  rw [Function.update_of_ne hne]
  exact h.pending fd' hid ((s.gate.agentOf_forward_of_ne a hne).symm.trans hof)

theorem forward_recycling {t : Task} {r : Recycling} (hr : s.recycling.lookup t = some r) :
    (s.gate.forward fd a).sockets r.fd ≠ none ∧
      ((s.gate.forward fd a).agentOf r.fd = none ∨ (s.gate.forward fd a).agentOf r.fd = some (some r.agent)) := by
  obtain ⟨hsocket, hof⟩ := h.recycling t r hr
  rw [s.gate.sockets_forward, s.gate.agentOf_forward_of_ne a (h.ne_opening_of_closed hw hof)]
  exact ⟨hsocket, hof⟩

theorem forward_sockets {fd' : Fd} (hfd' : (s.gate.forward fd a).sockets fd' = none) :
    (s.gate.forward fd a).agentOf fd' = none ∧ s.accepted fd' = none ∧ fd' ∉ s.authenticating := by
  rw [s.gate.sockets_forward] at hfd'
  obtain ⟨hof, hrest⟩ := h.sockets fd' hfd'
  exact ⟨(s.gate.agentOf_forward_of_ne a (h.ne_opening_of_closed (b := a) hw (.inl hof))).trans hof, hrest⟩

omit hw in
include houtbox in
theorem forward : Logins { s.popOutbox a outbox with
    pendingMsg := Function.update s.pendingMsg fd none
    gate := s.gate.forward fd a } := by
  obtain ⟨id, ref, hw, -⟩ := h.exists_waits (mem_logins_of_opening houtbox)
  exact
    { agents := h.forward_agents houtbox hw
      account := fun b caller hcaller => h.account b caller (mem_logins_of_popOutbox houtbox hcaller)
      creating := fun c hc => (h.creating c hc).imp_right (s.gate.agentOf_forward_of_ne a (hw.creating_fd_ne h hc)).trans
      again := h.again
      kick := fun _ _ _ => h.forward_kick hw
      online := fun _ _ => h.forward_online houtbox
      accepted := fun _ _ => h.forward_accepted hw
      authenticating := ⟨h.authenticating.1, fun _ => h.forward_authenticating hw⟩
      forwarded := fun _ _ => h.forward_forwarded hw
      pending := fun _ => h.forward_pending hw
      recycling := fun _ _ => h.forward_recycling hw
      sockets := fun _ => h.forward_sockets hw }

end Forward

theorem suspendClose (h : Logins s) {r : Recycling} (hsocket : s.gate.sockets r.fd ≠ none)
    (hof : s.gate.agentOf r.fd = none ∨ s.gate.agentOf r.fd = some (some r.agent)) : Logins (s.suspendClose r) :=
  { h with
    recycling := fun t r' hr => by
      rcases Gamed.lookup_suspendClose hr with rfl | hr
      · exact ⟨hsocket, hof⟩
      · exact h.recycling t r' hr }

theorem recycle (h : Logins s) {agent : Handle} {fd : Fd} (id : Id) (now : Nat) (hsocket : s.gate.sockets fd ≠ none)
    (hof : s.gate.agentOf fd = none ∨ s.gate.agentOf fd = some (some agent))
    (huser : (s.agent agent).user = none) : Logins (s.recycle agent id fd now) := by
  have hexit : ∀ a, Logins (s.send a .selfExit) := fun a => by
    refine h.send (fun caller hcaller => ?_) (fun fd' hfd' => ?_) fun fd' hfd' => ?_
    · cases hcaller
    · cases hfd'
    · cases hfd'
  have hdone : ∀ {s' : Gamed}, Logins s' → s'.gate = s.gate → (s'.agent agent).user = none →
      Logins ({ s' with clearPool := s'.clearPool.insert id ⟨agent, now + Gamed.expireCleanTime⟩ }.send agent
        (.closeDone fd)) := by
    intro s' hs' hgate hnone
    have hpool : Logins { s' with clearPool := s'.clearPool.insert id ⟨agent, now + Gamed.expireCleanTime⟩ } :=
      { hs' with }
    refine hpool.send (fun caller hcaller => ?_) (fun fd' hfd' => ?_) fun fd' hfd' u hu => ?_
    · rw [Multiset.mem_singleton.mp hcaller]
      rfl
    · cases Multiset.mem_singleton.mp hfd'
      exact hgate ▸ ⟨hsocket, hof⟩
    · cases hnone.symm.trans hu
  unfold Gamed.recycle
  split
  · rename_i pooled _
    refine hdone (hexit pooled.agent) rfl ?_
    rw [Gamed.send, Gamed.agent_setAgent]
    split
    · rename_i heq
      rw [← heq]
      exact huser
    · exact huser
  · exact hdone h rfl huser

theorem closing (h : Logins s) {a : Handle} {fd : Fd} {outbox : List ToGamed}
    (houtbox : (s.agent a).outbox = .answer (.closing fd) true :: outbox) :
    Logins { s.popOutbox a outbox with gate := s.gate.remove fd } := by
  have hclosing := ((h.agents a).closing fd (Agent.mem_total_of_outbox _
    (show ToGamed.answer (.closing fd) true ∈ (s.agent a).outbox by simp [houtbox]) (Multiset.mem_singleton_self _))).2
  have hlate : fd ∈ (s.agent a).late := Agent.mem_total_of_outbox _
    (show ToGamed.answer (.closing fd) true ∈ (s.agent a).outbox by simp [houtbox]) (Multiset.mem_singleton_self _)
  have hpop : Logins (s.popOutbox a outbox) := by
    refine h.popOutbox houtbox (fun caller hcaller => ?_) fun id fd' heq => ?_
    · rw [Multiset.mem_singleton.mp hcaller]
      rfl
    · cases heq
  refine hpop.remove (fun hof => ?_) fun b u hu hof heq => ?_
  · change s.gate.agentOf fd = some none at hof
    rw [hof] at hclosing
    simp at hclosing
  · change s.gate.agentOf u.fd = some (some b) at hof
    rw [heq] at hof
    rw [hof] at hclosing
    obtain rfl : b = a := by simpa using hclosing
    have huser : (s.agent b).user = some u := by
      rw [Gamed.agent_popOutbox_self] at hu
      exact hu
    exact (h.agents b).late fd hlate u huser heq

/-- The session of an account is closed while no login waits for its agent. -/
structure Closes (s : Gamed) (a : Handle) (id : Id) (fd : Fd) (outbox : List ToGamed) : Prop where
  outbox : (s.agent a).outbox = .cmdGamedClose id fd :: outbox
  logins : (s.agent a).logins = 0

namespace Closes

variable {a : Handle} {id : Id} {fd : Fd} {outbox : List ToGamed}

theorem agent_popOutbox (hclose : Closes s a id fd outbox) (b : Handle) :
    (((s.popOutbox a outbox).agent b).logins = (s.agent b).logins) ∧
      ((s.agent b).Underway s.gate → ((s.popOutbox a outbox).agent b).Underway s.gate) := by
  rw [Gamed.popOutbox, Gamed.agent_setAgent]
  split
  · rename_i hb
    subst hb
    refine ⟨?_, fun hu => hu.pop hclose.outbox⟩
    have hlogins := Agent.logins_pop_outbox hclose.outbox
    rw [hclose.logins] at hlogins ⊢
    exact Multiset.le_zero.mp (hlogins ▸ Multiset.le_add_left _ _)
  · exact ⟨rfl, fun hu => hu⟩

theorem agentOk (h : Logins s) (hclose : Closes s a id fd outbox) (b : Handle) :
    AgentOk s.gate b ((s.popOutbox a outbox).agent b) := by
  rw [Gamed.popOutbox, Gamed.agent_setAgent]
  split
  · rename_i hb
    subst hb
    refine (h.agents b).pop hclose.outbox (fun fd' task hmem => ?_) fun _ _ _ => hclose.logins
    cases Multiset.mem_singleton.mp hmem
  · exact h.agents b

theorem closing (h : Logins s) (hclose : Closes s a id fd outbox) :
    s.gate.sockets fd ≠ none ∧ (s.gate.agentOf fd = none ∨ s.gate.agentOf fd = some (some a)) :=
  (h.agents a).closing fd (Agent.mem_total_of_outbox _
    (show ToGamed.cmdGamedClose id fd ∈ (s.agent a).outbox by simp [hclose.outbox]) (Multiset.mem_singleton_self _))

theorem not_login (h : Logins s) (hclose : Closes s a id fd outbox) {ref : Ref} (href : s.onlineAccount id = some ref)
    (hagent : (s.info ref).agent = a) {b : Handle} {caller : Caller} (hcaller : caller ∈ (s.agent b).logins) :
    s.accepted caller.fd ≠ some id := by
  intro hid
  obtain ⟨id', ref', hid', href', hagent', -⟩ := h.account b caller hcaller
  obtain rfl : id = id' := Option.some.inj (hid.symm.trans hid')
  obtain rfl : ref = ref' := Option.some.inj (href.symm.trans href')
  obtain rfl : a = b := hagent.symm.trans hagent'
  rw [hclose.logins] at hcaller
  cases hcaller

theorem online (h : Logins s) (hclose : Closes s a id fd outbox) {id' : Id} {ref : Ref} (hid : id' ≠ id) (href : s.onlineAccount id' = some ref) :
    some id' ∈ ((s.popOutbox a outbox).agent (s.info ref).agent).held ∨ ∃ c ∈ s.creating, c.id = id' := by
  refine (h.online id' ref href).imp_left fun hs => ?_
  rw [Gamed.popOutbox, Gamed.agent_setAgent]
  split
  · rename_i hb
    rw [hb, Agent.held_pop_outbox hclose.outbox] at hs
    refine (Multiset.mem_add.mp hs).resolve_left fun hmem => ?_
    exact hid (Option.some.inj (Multiset.mem_singleton.mp hmem))
  · exact hs

end Closes

/-- The account of a closed session is free again. -/
theorem clear (h : Logins s) {a : Handle} {id : Id} {fd : Fd} {outbox : List ToGamed}
    (hclose : Closes s a id fd outbox) (hvacant : ∀ c ∈ s.creating, c.id ≠ id)
    {ref : Ref} (href : s.onlineAccount id = some ref) (hagent : (s.info ref).agent = a)
    (hkick : (s.info ref).kick = none) :
    Logins { s.popOutbox a outbox with onlineAccount := Function.update s.onlineAccount id none } := by
  have hidle : s.Free id := by
    refine ⟨hvacant, fun ref' href' => ?_⟩
    rw [← Option.some.inj (href.symm.trans href'), hagent]
    exact ⟨hkick, hclose.logins⟩
  have hstay : ∀ id', id' ≠ id → Function.update s.onlineAccount id none id' = s.onlineAccount id' :=
    fun id' hid => Function.update_of_ne hid _ _
  have hback : ∀ id' ref', Function.update s.onlineAccount id none id' = some ref' →
      id' ≠ id ∧ s.onlineAccount id' = some ref' := by
    intro id' ref' href'
    by_cases hid : id' = id
    · subst hid
      simp at href'
    · exact ⟨hid, (hstay id' hid).symm.trans href'⟩
  have hlogins := fun b => (hclose.agent_popOutbox b).1
  refine { h with
    agents := hclose.agentOk h
    account := fun b caller hcaller => ?account
    again := fun c hc ref' href' => ?again
    kick := fun id' ref' fd' href' hk => ?kick
    online := fun id' ref' href' => ?online
    accepted := fun fd' id' hid hof => ?accepted }
  case account =>
    have hcaller' : caller ∈ (s.agent b).logins := hlogins b ▸ hcaller
    obtain ⟨id', ref', hid, href', hrest⟩ := h.account b caller hcaller'
    refine ⟨id', ref', hid, ?_, hrest⟩
    refine (hstay id' ?_).trans href'
    rintro rfl
    exact hclose.not_login h href hagent hcaller' hid
  case again =>
    exact h.again c hc ref' (hback c.id ref' href').2
  case kick =>
    obtain ⟨-, href'⟩ := hback id' ref' href'
    obtain ⟨hid, hof, hplace⟩ := h.kick id' ref' fd' href' hk
    exact ⟨hid, hof, hplace.imp_right (And.imp (hlogins _).trans (hclose.agent_popOutbox _).2)⟩
  case online =>
    obtain ⟨hid, href'⟩ := hback id' ref' href'
    exact hclose.online h hid href'
  case accepted =>
    have hid' : id' ≠ id := by
      rintro rfl
      exact h.not_accepted hidle hid hof
    rcases h.accepted fd' id' hid hof with hc | ⟨b, caller, hcaller, heq⟩ | ⟨ref', href', hk⟩
    · exact .inl hc
    · exact .inr (.inl ⟨b, caller, (hlogins b).symm ▸ hcaller, heq⟩)
    · exact .inr (.inr ⟨ref', (hstay id' hid').trans href', hk⟩)

theorem close (h : Logins s) {a : Handle} {id : Id} {fd : Fd} {outbox : List ToGamed}
    (hclose : Closes s a id fd outbox) (hvacant : ∀ c ∈ s.creating, c.id ≠ id)
    {ref : Ref} (href : s.onlineAccount id = some ref) (hagent : (s.info ref).agent = a) {kick : Fd}
    (hkick : (s.info ref).kick = some kick) :
    InHand ((s.popOutbox a outbox).suspendClose ⟨a, id, fd, false⟩) kick id := by
  obtain ⟨hmine, hof, -⟩ := h.kick id ref kick href hkick
  have hclosing := hclose.closing h
  have hlogins := fun b => (hclose.agent_popOutbox b).1
  refine { h with
    mine := ⟨hmine, hof⟩
    agents := hclose.agentOk h
    account := fun b caller hcaller => ?account
    creating := fun c hc => ⟨hvacant c hc, h.creating c hc⟩
    kick := fun id' ref' fd' hid href' hk => ?kick
    online := fun id' ref' hid href' => hclose.online h hid href'
    accepted := fun fd' id' hid hof' => ?accepted
    recycling := fun t r hr => ?recycling }
  case account =>
    have hcaller' : caller ∈ (s.agent b).logins := hlogins b ▸ hcaller
    obtain ⟨id', ref', hid, hrest⟩ := h.account b caller hcaller'
    refine ⟨id', ref', ?_, hid, hrest⟩
    rintro rfl
    exact hclose.not_login h href hagent hcaller' hid
  case kick =>
    obtain ⟨hid', hof', hplace⟩ := h.kick id' ref' fd' href' hk
    exact ⟨hid', hof', hplace.imp_right (And.imp (hlogins _).trans (hclose.agent_popOutbox _).2)⟩
  case accepted =>
    by_cases heq : id' = id
    · subst heq
      refine .inl ⟨?_, rfl⟩
      rcases h.accepted fd' id' hid hof' with ⟨c, hc, rfl⟩ | ⟨b, caller, hcaller, rfl⟩ | ⟨ref', href', hk⟩
      · exact absurd (Option.some.inj ((h.creating c hc).1.symm.trans hid)) (hvacant c hc)
      · exact absurd hid (hclose.not_login h href hagent hcaller)
      · obtain rfl : ref = ref' := Option.some.inj (href.symm.trans href')
        exact Option.some.inj (hk.symm.trans hkick)
    · refine .inr ⟨heq, (h.accepted fd' id' hid hof').imp_right fun hplace => hplace.imp_left ?_⟩
      rintro ⟨b, caller, hcaller, rfl⟩
      exact ⟨b, caller, (hlogins b).symm ▸ hcaller, rfl⟩
  case recycling =>
    rcases Gamed.lookup_suspendClose hr with rfl | hr
    · exact hclosing
    · exact h.recycling t r hr

end Logins

/-! ### Runs -/

/-- The condition on the state before an event. A login is accepted only if its client is still there and no other login
of the account is on its way; a client that has been accepted stays until it is forwarded; a close reaches `gamed` only if
no login waits for the agent; and what is to be loaded for an account is there. -/
def Calm (s : Gamed) : Event → Prop
  | .authenticated fd (some id) => s.gate.agentOf fd ≠ none ∧ s.Free id
  | .disconnect fd => s.gate.agentOf fd = some none → s.accepted fd = none
  | .closed fd => s.gate.agentOf fd = some none → s.accepted fd = none
  | .handle a =>
    match (s.agent a).outbox with
    | .cmdGamedClose _ _ :: _ => (s.agent a).logins = 0
    | _ => True
  | .resume _ _ ok => ok = true
  | _ => True

namespace Logins

variable {s : Gamed}

theorem receive (hheld : Held s) (h : Logins s) {a : Handle} {bad : Bool} {x : Agent}
    (hx : (s.agent a).receive bad = some x) : Logins (s.setAgent a x) := by
  have hlogins := Agent.logins_of_callers (Agent.callers_receive hx)
  refine h.setAgent ((h.agents a).receive (hheld.card_held_le a) hx) hlogins
    (fun id hid => Agent.session_receive (hheld.card_held_le a) hx hid) fun hzero => ?_
  refine (h.agents a).underway_receive (hheld.card_held_le a) (fun fd task hmem => ?_) hx
  have hin : .opening fd task ∈ (s.agent a).logins := Multiset.mem_filter.mpr ⟨hmem, rfl⟩
  rw [← hlogins, hzero] at hin
  cases hin

theorem resume (hheld : Held s) (h : Logins s) {a : Handle} {i : Nat} {x : Agent}
    (hx : (s.agent a).resume i true = some x) : Logins (s.setAgent a x) := by
  have hlogins := Agent.logins_of_callers (Agent.callers_resume hx)
  refine h.setAgent ((h.agents a).resume (hheld.card_held_le a) hx) hlogins
    (fun id hid => Agent.session_resume (hheld.card_held_le a) hx hid) fun hzero => ?_
  refine AgentOk.underway_resume (fun fd task hmem => ?_) hx
  have hin : .opening fd task ∈ (s.agent a).logins := Multiset.mem_filter.mpr ⟨hmem, rfl⟩
  rw [← hlogins, hzero] at hin
  cases hin

theorem expire (h : Logins s) (now : Nat) (id : Id) : Logins (s.expire now id) := by
  unfold Gamed.expire
  split
  · rename_i pooled _
    split
    · have hsend : Logins (s.send pooled.agent .selfExit) := by
        refine h.send (fun caller hcaller => ?_) (fun fd hfd => ?_) fun fd hfd => ?_
        · cases hcaller
        · cases hfd
        · cases hfd
      exact { hsend with }
    · exact h
  · exact h

theorem fiveSecTick (h : Logins s) (now : Nat) : Logins (s.fiveSecTick now) := by
  unfold Gamed.fiveSecTick
  generalize s.clearPool.keys = ids
  induction ids generalizing s with
  | nil => exact h
  | cons id ids ih => exact ih (h.expire now id)

theorem authenticated (hheld : Held s) (hsessions : Sessions s) (h : Logins s) {fd : Fd} {id : Id}
    (hauth : fd ∈ s.authenticating) (hof : s.gate.agentOf fd ≠ none) (hfree : s.Free id) :
    Logins ({ s with
      authenticating := s.authenticating.erase fd
      accepted := Function.update s.accepted fd (some id) }.loginHandler fd id) := by
  have hhand := h.accept hfree hauth hof
  unfold Gamed.loginHandler
  split
  · rename_i ref href
    have href' : s.onlineAccount id = some ref := href
    obtain ⟨hkick, hzero⟩ := hfree.2 ref href'
    have hsession : some id ∈ (s.agent (s.info ref).agent).held := by
      rcases h.online id ref href' with hsession | ⟨c, hc, heq⟩
      · exact hsession
      · exact absurd heq (hfree.1 c hc)
    refine hhand.call href hkick hzero hsession (hheld.card_held_le _) rfl (.inl rfl) rfl fun t ht => ?_
    cases ht
  · rename_i hnone
    refine hhand.forwardAgent hsessions.current (fun pooled hlookup => hheld.held_of_pool hlookup) (fun ref href => ?_) none
    cases hnone.symm.trans href

theorem cmdGamedClose (hheld : Held s) (hsessions : Sessions s) (h : Logins s) {a : Handle} {id : Id} {fd : Fd}
    {outbox : List ToGamed} (hclose : Closes s a id fd outbox) :
    Logins ((s.popOutbox a outbox).cmdGamedClose a id fd) := by
  obtain ⟨⟨ref, href, hagent⟩, hvacant⟩ := hsessions.vacant_close hheld hclose.outbox
  obtain ⟨hsocket, hof⟩ := hclose.closing h
  have hcurrent : (s.popOutbox a outbox).onlineAccount id = some ref := href
  unfold Gamed.cmdGamedClose
  rw [hcurrent]
  dsimp only
  split
  · rename_i kick hkick
    refine (h.close hclose hvacant.creating href hagent hkick).forwardAgent hsessions.current (fun pooled hlookup => ?_)
      (fun ref' href' => ?_) _
    · exact (hheld.idle (Gamed.idle_popOutbox hclose.outbox)).held_of_pool hlookup
    · rw [← Option.some.inj (href.symm.trans href')]
      exact hkick
  · rename_i hkick
    exact (h.clear hclose hvacant.creating href hagent hkick).suspendClose hsocket hof

theorem opened (h : Logins s) {a : Handle} {fd : Fd} {task : Option Task} {ok : Bool} {outbox : List ToGamed}
    (houtbox : (s.agent a).outbox = .answer (.opening fd task) ok :: outbox) :
    Logins ((s.popOutbox a outbox).opened a fd task) := by
  have hforward := h.forward houtbox
  cases task with
  | none => exact hforward
  | some task =>
    exact { hforward with
      recycling := fun t r hr => by
        change (s.recycling.modify task fun r => { r with logging := true }).lookup t = some r at hr
        rw [Table.lookup_modify] at hr
        split at hr
        · obtain ⟨r', hr', rfl⟩ := Option.map_eq_some_iff.mp hr
          exact hforward.recycling t r' hr'
        · exact hforward.recycling t r hr }

theorem logged (hheld : Held s) (h : Logins s) {task : Task} {r : Recycling} (hr : s.recycling.lookup task = some r)
    (now : Nat) : Logins ({ s with recycling := s.recycling.erase task }.recycle r.agent r.id r.fd now) := by
  have hdone : Logins { s with recycling := s.recycling.erase task } :=
    { h with recycling := fun t r' hr' => h.recycling t r' (Table.lookup_of_erase hr') }
  obtain ⟨hsocket, hof⟩ := h.recycling task r hr
  exact hdone.recycle r.id now hsocket hof (user_of_held (hheld.held_of_recycling hr))

theorem otherLogin (hheld : Held s) (h : Logins s) {a : Handle} {t : Takeover} {ok : Bool} {outbox : List ToGamed}
    (houtbox : (s.agent a).outbox = .answer (.otherLogin t) ok :: outbox) :
    Logins ((s.popOutbox a outbox).send a (.cmdAgentKick t)) := by
  obtain ⟨id, hhand, href, rfl, hkick, hzero, hsession, hsame⟩ := h.takeMessage houtbox rfl (.inl rfl)
  refine hhand.call href hkick hzero hsession (hsame ▸ hheld.card_held_le _) rfl (.inr rfl) rfl fun t' ht' => ?_
  cases ht'

/-- The client of the user of an agent that a takeover kicks is the one that the agent names. -/
theorem forwarded_of_kicking (h : Logins s) {a : Handle} {t : Takeover} (hkicking : .kicking t ∈ (s.agent a).callers)
    {u : User} (hu : (s.agent a).user = some u) : s.gate.agentOf u.fd = some (some a) := by
  rcases (h.agents a).user u hu with ⟨task, hopening⟩ | hof
  · exact absurd hopening ((h.agents a).no_opening_of_kicking hkicking u.fd task)
  · exact hof

theorem cmdGamedKick (hheld : Held s) (h : Logins s) {a : Handle} {userFd : Option Fd} {t : Takeover}
    {outbox : List ToGamed} (houtbox : (s.agent a).outbox = .cmdGamedKick userFd (some t) :: outbox) :
    Logins ((s.popOutbox a outbox).cmdGamedKick a userFd (some t)) := by
  have hmem : ToGamed.cmdGamedKick userFd (some t) ∈ (s.agent a).outbox := by simp [houtbox]
  have hkicking : .kicking t ∈ (s.agent a).callers := Agent.mem_total_of_outbox _ hmem (Multiset.mem_singleton_self _)
  have hpopped := s.agent_popOutbox_self a outbox
  obtain ⟨id, hhand, href, hagent, hkick, hzero, hsession, hsame⟩ := h.takeMessage houtbox rfl (.inr rfl)
  have hcard : Multiset.card ((s.popOutbox a outbox).agent a).held ≤ 1 := hsame ▸ hheld.card_held_le a
  -- if there is no client to close, there is no user
  have hdone : (∀ u, (s.agent a).user ≠ some u) → Logins ((s.popOutbox a outbox).send a (.kickDone (some t))) := by
    intro hnone
    have hunder : ((s.popOutbox a outbox).agent a).Underway s.gate := by
      intro u hu
      rw [hpopped] at hu
      exact absurd hu (hnone u)
    subst hagent
    exact hhand.call href hkick hzero hsession hcard rfl (.inr rfl) rfl fun _ _ => hunder
  cases userFd with
  | none =>
    refine hdone fun u hu => ?_
    cases (h.agents a).kick none t hmem u hu
  | some fd =>
    have hfd : ∀ u, (s.agent a).user = some u → fd = u.fd := fun u hu =>
      Option.some.inj ((h.agents a).kick (some fd) t hmem u hu)
    simp only [Gamed.cmdGamedKick]
    split
    · have huser : ∀ u, ((s.popOutbox a outbox).agent a).user = some u → fd = u.fd := by
        rw [hpopped]
        exact hfd
      subst hagent
      exact hhand.logKick href hkick hzero hsession hcard huser
    · rename_i hclient
      refine hdone fun u hu => hclient ?_
      rw [hfd u hu]
      exact Gate.closesClient_of_agentOf (h.forwarded_of_kicking hkicking hu)

theorem kicked (hheld : Held s) (h : Logins s) {a : Handle} {i : Nat} {fd : Fd} {t : Takeover}
    (hkicks : (s.agent a).kicks[i]? = some (fd, some t)) :
    Logins ({ s.setAgent a { s.agent a with kicks := (s.agent a).kicks.eraseIdx i } with
      gate := s.gate.socketClose fd }.send a (.kickDone (some t))) := by
  have hmem : (fd, some t) ∈ (s.agent a).kicks := List.mem_of_getElem? hkicks
  have hkicking : .kicking t ∈ (s.agent a).callers := Agent.mem_total_of_kicks _ hmem (Multiset.mem_singleton_self _)
  have hclosed : Logins { s with gate := s.gate.socketClose fd } := h.socketClose fd
  obtain ⟨id, hhand, href, hagent, hkick, hzero, hsession, hsame⟩ := hclosed.takeKick hkicks rfl
  have hunder : (({ s with gate := s.gate.socketClose fd }.setAgent a
      { s.agent a with kicks := (s.agent a).kicks.eraseIdx i }).agent a).Underway (s.gate.socketClose fd) := by
    rw [Gamed.agent_setAgent, if_pos rfl]
    intro u hu
    have hof := h.forwarded_of_kicking hkicking hu
    rw [(h.agents a).kicks fd t hmem u hu]
    refine .inl (Gate.closing_socketClose_pos fun hnone => ?_)
    cases (h.sockets u.fd hnone).1.symm.trans hof
  have hcard : Multiset.card (({ s with gate := s.gate.socketClose fd }.setAgent a
      { s.agent a with kicks := (s.agent a).kicks.eraseIdx i }).agent a).held ≤ 1 := by
    rw [hsame]
    exact hheld.card_held_le a
  subst hagent
  exact hhand.call href hkick hzero hsession hcard rfl (.inr rfl) rfl fun _ _ => hunder

theorem kicking (hheld : Held s) (h : Logins s) {a : Handle} {t : Takeover} {ok : Bool} {outbox : List ToGamed}
    (houtbox : (s.agent a).outbox = .answer (.kicking t) ok :: outbox) :
    Logins { s.popOutbox a outbox with
      info := Function.update s.info t.info { s.info t.info with kick := some t.fd } } := by
  have hunder := (h.agents a).kicked t ok (by simp [houtbox])
  obtain ⟨id, hhand, href, hagent, hkick, hzero, hsession, hsame⟩ := h.takeMessage houtbox rfl (.inr rfl)
  have hcard : Multiset.card ((s.popOutbox a outbox).agent a).held ≤ 1 := hsame ▸ hheld.card_held_le a
  have hpopped : ((s.popOutbox a outbox).agent a).Underway s.gate := by
    rw [Gamed.agent_popOutbox_self]
    exact hunder.pop houtbox
  subst hagent
  exact hhand.wait href hkick hzero hsession hcard hpopped

end Logins

end SkynetServer.Game
