import SkynetServer.Game.OneAgent

/-!
# An agent and the logins that wait for it

The part of the argument about logins that concerns one agent. At most one login waits for an agent, and it belongs to
the session that the agent holds. A user without such a login is the user of a client that the gate forwards to the
agent. A close that has gone past the user never belongs to the client of the user that is there now. Once the kick of a
login has reached the gate, the close of the user is on its way: a close event is still to come, or a call of
`cmd_agent_close` has not gone past the user.
-/

namespace SkynetServer.Game

open Lib

/-- What `connection` says about a client: nothing, or to which agent it is forwarded. -/
def Gate.agentOf (gate : Gate) (fd : Fd) : Option (Option Handle) := (gate.connection fd).map Client.agent

namespace Caller

def fd : Caller → Fd
  | .otherLogin takeover => takeover.fd
  | .kicking takeover => takeover.fd
  | .opening fd _ => fd
  | .closing fd => fd

/-- `login_handler` or `forward_agent`. -/
def isLogin : Caller → Bool
  | .closing _ => false
  | _ => true

end Caller

namespace Agent

/-- The logins that wait for the agent. -/
def logins (x : Agent) : Multiset Caller := x.callers.filter fun caller => caller.isLogin

/-- The calls of `cmd_agent_close` that have not gone past the user. -/
def earlyContent : Content Fd where
  inbox
    | .cmdAgentClose fd => {fd}
    | _ => 0
  handler
    | .saveClose fd => {fd}
    | _ => 0
  outbox := fun _ => 0
  kick := fun _ => 0

def early (x : Agent) : Multiset Fd := x.total earlyContent

/-- The calls of `cmd_agent_close` that have gone past the user, or have found none. -/
def lateContent : Content Fd where
  inbox
    | .closeDone fd => {fd}
    | _ => 0
  handler
    | .logout _ fd => {fd}
    | _ => 0
  outbox
    | .cmdGamedClose _ fd => {fd}
    | .answer (.closing fd) _ => {fd}
    | _ => 0
  kick := fun _ => 0

def late (x : Agent) : Multiset Fd := x.total lateContent

/-- The close of the user is on its way. -/
def Underway (gate : Gate) (x : Agent) : Prop := ∀ u, x.user = some u → 0 < gate.closing u.fd ∨ x.early ≠ 0

theorem closing_of_mem_late {x : Agent} {fd : Fd} (h : fd ∈ x.late) : .closing fd ∈ x.callers := by
  simp only [late, total, Multiset.mem_add] at h
  rcases h with ((h | h) | h) | h
  · obtain ⟨msg, hmsg, hfd⟩ := mem_sum_content h
    refine mem_total_of_inbox _ hmsg ?_
    cases msg <;> simp_all [lateContent, callerContent]
  · obtain ⟨handler, hhandler, hfd⟩ := mem_sum_content h
    refine mem_total_of_handlers _ hhandler ?_
    cases handler <;> simp_all [lateContent, callerContent]
  · obtain ⟨msg, hmsg, hfd⟩ := mem_sum_content h
    refine mem_total_of_outbox _ hmsg ?_
    cases msg with
    | answer caller ok => cases caller <;> simp_all [lateContent, callerContent]
    | _ => simp_all [lateContent, callerContent]
  · obtain ⟨kick, -, hfd⟩ := mem_sum_content h
    cases hfd

end Agent

/-- What is true of an agent that logins and closes wait for. -/
structure AgentOk (gate : Gate) (a : Handle) (x : Agent) : Prop where
  one : Multiset.card x.logins ≤ 1
  session : x.logins ≠ 0 → ∃ id, some id ∈ x.held
  userFd : x.userFd = x.user.map User.fd
  user : ∀ u, x.user = some u → (∃ task, .opening u.fd task ∈ x.callers) ∨ gate.agentOf u.fd = some (some a)
  record : ∀ u, x.user = some u → x.record = true ∨ ∃ task, .opening u.fd task ∈ x.callers
  login : ∀ caller ∈ x.callers, caller.isLogin = true → gate.agentOf caller.fd = some none
  closing : ∀ fd, .closing fd ∈ x.callers →
    gate.sockets fd ≠ none ∧ (gate.agentOf fd = none ∨ gate.agentOf fd = some (some a))
  late : ∀ fd ∈ x.late, ∀ u, x.user = some u → u.fd ≠ fd
  kick : ∀ f t, .cmdGamedKick f (some t) ∈ x.outbox → ∀ u, x.user = some u → f = some u.fd
  kicks : ∀ fd t, (fd, some t) ∈ x.kicks → ∀ u, x.user = some u → fd = u.fd
  kickDone : ∀ t, .kickDone (some t) ∈ x.inbox → x.Underway gate
  kicked : ∀ t ok, .answer (.kicking t) ok ∈ x.outbox → x.Underway gate
  answered : ∀ caller ok, .answer caller ok ∈ x.outbox → caller.isLogin = true → ok = true
  opened : ∀ fd task ok, .answer (.opening fd task) ok ∈ x.outbox → x.record = true

namespace AgentOk

variable {gate : Gate} {a : Handle} {x : Agent}

theorem init (gate : Gate) (a : Handle) : AgentOk gate a {} := by
  constructor <;> intros <;> simp_all [Agent.logins, Agent.callers, Agent.total, Agent.late]

theorem eq_of_login (h : AgentOk gate a x) {caller caller' : Caller} (hmem : caller ∈ x.callers)
    (hlogin : caller.isLogin = true) (hmem' : caller' ∈ x.callers) (hlogin' : caller'.isLogin = true) :
    caller = caller' := by
  have hin : caller ∈ x.logins := Multiset.mem_filter.mpr ⟨hmem, hlogin⟩
  have hin' : caller' ∈ x.logins := Multiset.mem_filter.mpr ⟨hmem', hlogin'⟩
  have hcard : Multiset.card x.logins = 1 :=
    Nat.le_antisymm h.one (Multiset.card_pos_iff_exists_mem.mpr ⟨caller, hin⟩)
  obtain ⟨only, honly⟩ := Multiset.card_eq_one.mp hcard
  rw [honly, Multiset.mem_singleton] at hin hin'
  exact hin.trans hin'.symm

theorem no_other (h : AgentOk gate a x) {caller : Caller} {rest : Multiset Caller} (hlogins : x.logins = {caller} + rest) :
    rest = 0 := by
  have hone := h.one
  rw [hlogins, Multiset.card_add, Multiset.card_singleton] at hone
  exact Multiset.card_eq_zero.mp (Nat.le_zero.mp (Nat.le_of_add_le_add_left hone))

/-- A login waits only for an agent with a session, and such an agent is not about to leave. -/
theorem not_exit_of_login (h : AgentOk gate a x) (hheld : Multiset.card x.held ≤ 1) {caller : Caller}
    (hmem : caller ∈ x.callers) (hlogin : caller.isLogin = true) : none ∉ x.held := by
  intro hnone
  have hne : x.logins ≠ 0 := fun hzero => by
    have hin : caller ∈ x.logins := Multiset.mem_filter.mpr ⟨hmem, hlogin⟩
    rw [hzero] at hin
    cases hin
  obtain ⟨id, hid⟩ := h.session hne
  obtain ⟨only, honly⟩ := Multiset.card_eq_one.mp (Nat.le_antisymm hheld
    (Multiset.card_pos_iff_exists_mem.mpr ⟨none, hnone⟩))
  rw [honly, Multiset.mem_singleton] at hid hnone
  cases hid.trans hnone.symm

theorem complete (h : AgentOk gate a x) (hno : ∀ fd task, .opening fd task ∉ x.callers) (u : User)
    (hu : x.user = some u) : x.canSave = true := by
  rcases h.record u hu with hrecord | ⟨task, hopening⟩
  · simp [Agent.canSave, hu, hrecord]
  · exact absurd hopening (hno _ task)

theorem no_opening_of_kicking (h : AgentOk gate a x) {t : Takeover} (ht : .kicking t ∈ x.callers) (fd : Fd)
    (task : Option Task) : .opening fd task ∉ x.callers := fun hopening => by
  cases h.eq_of_login ht rfl hopening rfl

/-- What must be true of a message to `gamed` when it is sent. -/
def Fresh (gate : Gate) (x : Agent) : ToGamed → Prop
  | .cmdGamedKick f (some _) => f = x.userFd
  | .cmdGamedKick _ none => True
  | .cmdGamedClose _ _ => True
  | .answer (.otherLogin _) ok => ok = true
  | .answer (.kicking _) ok => ok = true ∧ x.Underway gate
  | .answer (.opening _ _) ok => ok = true ∧ x.record = true
  | .answer (.closing _) _ => True

theorem of_step (h : AgentOk gate a x) {x' : Agent} (hcallers : x'.callers = x.callers)
    (hheld : ∀ id, some id ∈ x.held → some id ∈ x'.held) (hrecord : x.record = true → x'.record = true)
    (huser : (x'.user = x.user ∧ x'.userFd = x.userFd) ∨ (x'.user = none ∧ x'.userFd = none))
    (hlate : ∀ fd ∈ x'.late, fd ∈ x.late ∨ ∀ u, x'.user = some u → u.fd ≠ fd)
    (hinbox : ∀ msg ∈ x'.inbox, msg ∈ x.inbox) (hkicks : x'.kicks = x.kicks)
    (houtbox : ∀ msg ∈ x'.outbox, msg ∈ x.outbox ∨ Fresh gate x' msg)
    (hunder : ∀ t, .kicking t ∈ x.callers → x.Underway gate → x'.Underway gate) : AgentOk gate a x' := by
  have hold : ∀ u, x'.user = some u → x.user = some u := by
    intro u hu
    rcases huser with ⟨hsame, -⟩ | ⟨hnone, -⟩
    · rw [← hsame, hu]
    · rw [hnone] at hu
      cases hu
  have hfd : x'.userFd = x'.user.map User.fd := by
    rcases huser with ⟨hsame, hsameFd⟩ | ⟨hnone, hnoneFd⟩
    · rw [hsame, hsameFd, h.userFd]
    · rw [hnone, hnoneFd]
      rfl
  constructor
  case one => rw [Agent.logins, hcallers]; exact h.one
  case session =>
    intro hne
    rw [Agent.logins, hcallers] at hne
    obtain ⟨id, hid⟩ := h.session hne
    exact ⟨id, hheld id hid⟩
  case userFd => exact hfd
  case user => rw [hcallers]; exact fun u hu => h.user u (hold u hu)
  case record => rw [hcallers]; exact fun u hu => (h.record u (hold u hu)).imp_left hrecord
  case login => rw [hcallers]; exact h.login
  case closing => rw [hcallers]; exact h.closing
  case late =>
    intro fd hmem u hu
    rcases hlate fd hmem with hmem | hne
    · exact h.late fd hmem u (hold u hu)
    · exact hne u hu
  case kick =>
    intro f t hmem u hu
    rcases houtbox _ hmem with hmem | hfresh
    · exact h.kick f t hmem u (hold u hu)
    · rw [show f = x'.userFd from hfresh, hfd, hu]
      rfl
  case kicks => exact fun f t hmem u hu => h.kicks f t (hkicks ▸ hmem) u (hold u hu)
  case kickDone =>
    intro t hmem
    exact hunder t (Agent.mem_total_of_inbox _ (hinbox _ hmem) (Multiset.mem_singleton_self _))
      (h.kickDone t (hinbox _ hmem))
  case kicked =>
    intro t ok hmem
    rcases houtbox _ hmem with hmem | hfresh
    · exact hunder t (Agent.mem_total_of_outbox _ hmem (Multiset.mem_singleton_self _)) (h.kicked t ok hmem)
    · exact hfresh.2
  case answered =>
    intro caller ok hmem hlogin
    rcases houtbox _ hmem with hmem | hfresh
    · exact h.answered caller ok hmem hlogin
    · cases caller with
      | otherLogin takeover => exact hfresh
      | kicking takeover => exact hfresh.1
      | opening fd task => exact hfresh.1
      | closing fd => cases hlogin
  case opened =>
    intro fd task ok hmem
    rcases houtbox _ hmem with hmem | hfresh
    · exact hrecord (h.opened fd task ok hmem)
    · exact hfresh.2

end AgentOk

namespace Agent

theorem session_receive {x x' : Agent} {bad : Bool} (hheld : Multiset.card x.held ≤ 1) (h : x.receive bad = some x')
    {id : Id} (hid : some id ∈ x.held) : some id ∈ x'.held := by
  obtain ⟨msg, inbox, hinbox, ⟨hexited, rfl⟩ | ⟨-, rfl⟩⟩ := receive_cases h
  · cases eq_of_mem_held hheld hid (mem_held_of_exited hexited)
  · by_cases hmsg : msg = .selfExit
    · subst hmsg
      have hexit : none ∈ x.held := by
        rw [held_pop hinbox]
        exact Multiset.mem_add.mpr (.inl (Multiset.mem_singleton_self _))
      cases eq_of_mem_held hheld hid hexit
    · rw [held_dispatch _ bad msg hmsg, ← held_pop hinbox]
      exact hid

theorem session_proceed {x : Agent} {handler : Handler} (hheld : Multiset.card (heldContent.handler handler + x.held) ≤ 1)
    {id : Id} (hid : some id ∈ heldContent.handler handler + x.held) : some id ∈ (x.proceed true handler).held := by
  cases handler with
  | loading fd id' task =>
    simp only [proceed, if_true, held_suspend]
    have hzero : x.held = 0 := by
      simp only [heldContent, Multiset.card_add, Multiset.card_singleton] at hheld
      exact Multiset.card_eq_zero.mp (by omega)
    rw [hzero, add_zero] at hid
    obtain rfl : id = id' := Option.some.inj (Multiset.mem_singleton.mp hid)
    exact Multiset.mem_add.mpr (.inr (Multiset.mem_add.mpr (.inl (Multiset.mem_add.mpr (.inr
      (Multiset.mem_singleton_self _))))))
  | login fd task =>
    rw [proceed, held_ret]
    exact (Multiset.mem_add.mp hid).resolve_left (Multiset.notMem_zero _)
  | logKick takeover =>
    have hmem : some id ∈ x.held := (Multiset.mem_add.mp hid).resolve_left (Multiset.notMem_zero _)
    simp only [proceed]
    split
    · rw [held_suspend]
      exact Multiset.mem_add.mpr (.inr hmem)
    · rw [held_ret]
      exact hmem
  | saveKick takeover =>
    rw [proceed, held_send]
    exact hid
  | saveClose fd =>
    have hmem : some id ∈ x.held := (Multiset.mem_add.mp hid).resolve_left (Multiset.notMem_zero _)
    simp only [proceed]
    split
    · rename_i user huser
      rw [held_suspend, held_setUser]
      rw [held, huser] at hmem
      simp only [Multiset.mem_add, Option.elim_some, Option.elim_none, Multiset.notMem_zero, or_false] at hmem ⊢
      simp only [heldContent] at hmem ⊢
      tauto
    · rw [held_ret]
      exact hmem
  | logout id' fd =>
    rw [proceed, held_send]
    exact hid

theorem session_resume {x x' : Agent} {i : Nat} (hheld : Multiset.card x.held ≤ 1) (h : x.resume i true = some x')
    {id : Id} (hid : some id ∈ x.held) : some id ∈ x'.held := by
  obtain ⟨handler, hhandler, rfl⟩ := resume_cases h
  rw [held_eraseIdx hhandler] at hheld hid
  exact session_proceed hheld hid

end Agent

/-! ### Steps of the agent -/

namespace Agent

/-- A call of `cmd_agent_close` waits at the user as long as `save_data` can be called. -/
theorem early_dispatch (x : Agent) (bad : Bool) {msg : ToAgent} (hmsg : msg ≠ .selfExit)
    (hsave : ∀ fd, msg = .cmdAgentClose fd → x.canSave = true) :
    (x.dispatch bad msg).early = earlyContent.inbox msg + x.early := by
  cases msg with
  | cmdAgentOpen fd id task => exact total_suspend _ x _
  | cmdAgentOtherLogin takeover => exact total_ret _ x _
  | cmdAgentKick takeover => exact total_suspend _ x _
  | cmdAgentClose fd =>
    rw [dispatch, if_pos (hsave fd rfl)]
    exact total_suspend _ x _
  | testDispatch msg =>
    simp only [dispatch]
    split
    · exact total_send _ x _
    · exact (zero_add _).symm
  | selfExit => exact absurd rfl hmsg
  | closeDone fd => exact total_ret _ x _
  | kickDone takeover =>
    cases takeover with
    | none => exact (zero_add _).symm
    | some takeover => exact total_ret _ x _

theorem late_dispatch (x : Agent) (bad : Bool) {msg : ToAgent} (hmsg : msg ≠ .selfExit) :
    (x.dispatch bad msg).late = lateContent.inbox msg + x.late ∨
      ∃ fd, msg = .cmdAgentClose fd ∧ x.canSave = false ∧ (x.dispatch bad msg).late = {fd} + x.late := by
  cases msg with
  | cmdAgentOpen fd id task => exact .inl (total_suspend _ x _)
  | cmdAgentOtherLogin takeover => exact .inl (total_ret _ x _)
  | cmdAgentKick takeover => exact .inl (total_suspend _ x _)
  | cmdAgentClose fd =>
    simp only [dispatch]
    split
    · exact .inl (total_suspend _ x _)
    · rename_i hsave
      exact .inr ⟨fd, rfl, by simpa using hsave, total_ret _ x _⟩
  | testDispatch msg =>
    simp only [dispatch]
    split
    · exact .inl (total_send _ x _)
    · exact .inl (zero_add _).symm
  | selfExit => exact absurd rfl hmsg
  | closeDone fd => exact .inl (total_ret _ x _)
  | kickDone takeover =>
    cases takeover with
    | none => exact .inl (zero_add _).symm
    | some takeover => exact .inl (total_ret _ x _)

theorem user_dispatch (x : Agent) (bad : Bool) {msg : ToAgent} (hmsg : msg ≠ .selfExit) :
    (x.dispatch bad msg).user = x.user ∧ (x.dispatch bad msg).userFd = x.userFd ∧
      (x.dispatch bad msg).record = x.record ∧ (x.dispatch bad msg).inbox = x.inbox ∧
        (x.dispatch bad msg).kicks = x.kicks := by
  cases msg with
  | selfExit => exact absurd rfl hmsg
  | kickDone takeover => cases takeover <;> exact ⟨rfl, rfl, rfl, rfl, rfl⟩
  | cmdAgentClose fd =>
    simp only [dispatch]
    split <;> exact ⟨rfl, rfl, rfl, rfl, rfl⟩
  | testDispatch msg =>
    simp only [dispatch]
    split <;> exact ⟨rfl, rfl, rfl, rfl, rfl⟩
  | _ => exact ⟨rfl, rfl, rfl, rfl, rfl⟩

theorem underway_dispatch {gate : Gate} {x : Agent} (hcomplete : ∀ u, x.user = some u → x.canSave = true)
    {msg : ToAgent} {inbox : List ToAgent} (hinbox : x.inbox = msg :: inbox) (bad : Bool) (hmsg : msg ≠ .selfExit)
    (hunder : x.Underway gate) : ({ x with inbox }.dispatch bad msg).Underway gate := by
  intro u hu
  rw [(user_dispatch { x with inbox } bad hmsg).1] at hu
  have hearly : ({ x with inbox }.dispatch bad msg).early = x.early :=
    (early_dispatch { x with inbox } bad hmsg fun _ _ => hcomplete u hu).trans (total_pop _ hinbox).symm
  rw [hearly]
  exact hunder u hu

/-- And when the database answers a handler, unless that sets the user. -/
theorem underway_proceed {gate : Gate} {x : Agent} {i : Nat} {handler : Handler} (h : x.handlers[i]? = some handler)
    (hloading : ∀ fd id task, handler ≠ .loading fd id task) (hunder : x.Underway gate) :
    ({ x with handlers := x.handlers.eraseIdx i }.proceed true handler).Underway gate := by
  have hearly : x.early = earlyContent.handler handler + { x with handlers := x.handlers.eraseIdx i }.early :=
    total_eraseIdx _ h
  intro u hu
  cases handler with
  | loading fd id task => exact absurd rfl (hloading fd id task)
  | login fd task =>
    exact (hunder u hu).imp_right fun hne hzero => hne (hearly.trans ((total_ret earlyContent _ _).symm.trans hzero))
  | logKick t =>
    have hsame : ({ x with handlers := x.handlers.eraseIdx i }.proceed true (.logKick t)).user = x.user ∧
        ({ x with handlers := x.handlers.eraseIdx i }.proceed true (.logKick t)).early = x.early := by
      simp only [proceed]
      split
      · exact ⟨rfl, (total_suspend earlyContent _ _).trans hearly.symm⟩
      · exact ⟨rfl, (total_ret earlyContent _ _).trans hearly.symm⟩
    rw [hsame.1] at hu
    rw [hsame.2]
    exact hunder u hu
  | saveKick t =>
    exact (hunder u hu).imp_right fun hne hzero => hne (hearly.trans ((total_send earlyContent _ _).symm.trans hzero))
  | saveClose fd =>
    simp only [proceed] at hu
    split at hu
    · cases hu
    · rename_i hnone
      cases hnone.symm.trans hu
  | logout id fd =>
    exact (hunder u hu).imp_right fun hne hzero => hne (hearly.trans ((total_send earlyContent _ _).symm.trans hzero))

theorem mem_outbox_dispatch {x : Agent} {bad : Bool} {msg : ToAgent} (hmsg : msg ≠ .selfExit) {out : ToGamed}
    (h : out ∈ (x.dispatch bad msg).outbox) :
    out ∈ x.outbox ∨ (∃ t, msg = .cmdAgentOtherLogin t ∧ out = .answer (.otherLogin t) true) ∨
      (∃ t, msg = .kickDone (some t) ∧ out = .answer (.kicking t) true) ∨
      (∃ fd, out = .answer (.closing fd) true) ∨ out = .cmdGamedKick x.userFd none := by
  have hsend : ∀ msg', out ∈ (x.send msg').outbox → out ∈ x.outbox ∨ out = msg' := fun msg' hmem => by
    simpa [send] using hmem
  cases msg with
  | cmdAgentOpen fd id task => exact .inl h
  | cmdAgentOtherLogin t => exact (hsend _ h).imp_right fun heq => .inl ⟨t, rfl, heq⟩
  | cmdAgentKick t => exact .inl h
  | cmdAgentClose fd =>
    simp only [dispatch] at h
    split at h
    · exact .inl h
    · exact (hsend _ h).imp_right fun heq => .inr (.inr (.inl ⟨fd, heq⟩))
  | testDispatch msg =>
    simp only [dispatch] at h
    split at h
    · exact (hsend _ h).imp_right fun heq => .inr (.inr (.inr heq))
    · exact .inl h
  | selfExit => exact absurd rfl hmsg
  | closeDone fd => exact (hsend _ h).imp_right fun heq => .inr (.inr (.inl ⟨fd, heq⟩))
  | kickDone t =>
    cases t with
    | none => exact .inl h
    | some t => exact (hsend _ h).imp_right fun heq => .inr (.inl ⟨t, rfl, heq⟩)

end Agent

namespace AgentOk

variable {gate : Gate} {a : Handle} {x : Agent}

/-- `save_data` fails only without a user, except while the first user of the agent logs in. -/
theorem ne_of_not_canSave (h : AgentOk gate a x) (hsave : x.canSave = false) {fd : Fd} (hmem : .closing fd ∈ x.callers)
    {u : User} (hu : x.user = some u) : u.fd ≠ fd := by
  rcases h.record u hu with hrecord | ⟨task, hopening⟩
  · simp [Agent.canSave, hu, hrecord] at hsave
  · rintro rfl
    have hlogin : gate.agentOf u.fd = some none := h.login _ hopening rfl
    rcases (h.closing _ hmem).2 with hnone | hsome
    · rw [hlogin] at hnone
      cases hnone
    · rw [hlogin] at hsome
      cases hsome

theorem dispatch (h : AgentOk gate a x) (hheld : Multiset.card x.held ≤ 1) (hexited : x.exited = false) {msg : ToAgent}
    {inbox : List ToAgent} (hinbox : x.inbox = msg :: inbox) (bad : Bool) (hmsg : msg ≠ .selfExit) :
    AgentOk gate a ({ x with inbox }.dispatch bad msg) := by
  have hreceive : x.receive bad = some ({ x with inbox }.dispatch bad msg) := by
    simp [Agent.receive, hinbox, hexited]
  have hcallers := Agent.callers_receive hreceive
  have hmem : msg ∈ x.inbox := by simp [hinbox]
  obtain ⟨huser, huserFd, hrecord, hinbox', hkicks⟩ := Agent.user_dispatch { x with inbox } bad hmsg
  have hunder : ∀ t, .kicking t ∈ x.callers → x.Underway gate → ({ x with inbox }.dispatch bad msg).Underway gate :=
    fun t ht => Agent.underway_dispatch (h.complete (h.no_opening_of_kicking ht)) hinbox bad hmsg
  refine h.of_step hcallers (fun id hid => Agent.session_receive hheld hreceive hid) (fun hr => hrecord.trans hr)
    (.inl ⟨huser, huserFd⟩) (fun fd hfd => ?_) (fun m hm => ?_) hkicks (fun out hout => ?_) hunder
  · have hlate : x.late = Agent.lateContent.inbox msg + { x with inbox }.late := Agent.total_pop _ hinbox
    rcases Agent.late_dispatch { x with inbox } bad hmsg with hsame | ⟨fd', rfl, hsave, hmore⟩
    · rw [hsame, ← hlate] at hfd
      exact .inl hfd
    · rw [hmore] at hfd
      rcases Multiset.mem_add.mp hfd with hfd | hfd
      · obtain rfl := Multiset.mem_singleton.mp hfd
        refine .inr fun u hu => ?_
        rw [huser] at hu
        exact h.ne_of_not_canSave hsave (Agent.mem_total_of_inbox _ hmem (Multiset.mem_singleton_self _)) hu
      · rw [hlate]
        exact .inl (Multiset.mem_add.mpr (.inr hfd))
  · rw [hinbox'] at hm
    rw [hinbox]
    exact List.mem_cons_of_mem _ hm
  · rcases Agent.mem_outbox_dispatch hmsg hout with hout | ⟨t, rfl, rfl⟩ | ⟨t, rfl, rfl⟩ | ⟨fd, rfl⟩ | rfl
    · exact .inl hout
    · exact .inr rfl
    · have hkicking : .kicking t ∈ x.callers := Agent.mem_total_of_inbox _ hmem (Multiset.mem_singleton_self _)
      exact .inr ⟨rfl, hunder t hkicking (h.kickDone t hmem)⟩
    · exact .inr trivial
    · exact .inr trivial

theorem selfExit (h : AgentOk gate a x) (hheld : Multiset.card x.held ≤ 1) {inbox : List ToAgent}
    (hinbox : x.inbox = .selfExit :: inbox) : AgentOk gate a { x with inbox }.selfExit := by
  have hexit : none ∈ x.held := by
    rw [Agent.held_pop hinbox]
    exact Multiset.mem_add.mpr (.inl (Multiset.mem_singleton_self _))
  have hcallers : ({ x with inbox }.selfExit).callers = x.callers :=
    (Agent.callers_selfExit _).trans ((zero_add _).symm.trans (Agent.total_pop _ hinbox).symm)
  refine h.of_step hcallers (fun id hid => ?_) (fun hr => hr) (.inr ⟨rfl, rfl⟩) (fun fd _ => .inr fun u hu => ?_)
    (fun m hm => ?_) rfl (fun out hout => ?_) fun t _ _ u hu => ?_
  · cases Agent.eq_of_mem_held hheld hid hexit
  · cases hu
  · rw [hinbox]
    exact List.mem_cons_of_mem _ hm
  · rcases List.mem_append.mp hout with hout | hout
    · exact .inl hout
    · obtain ⟨handler, hhandler, rfl⟩ := List.mem_map.mp hout
      have hcaller : ∀ caller ∈ Agent.callerContent.handler handler, caller ∈ x.callers :=
        fun caller hmem => Agent.mem_total_of_handlers _ hhandler hmem
      have hno : ∀ caller ∈ Agent.callerContent.handler handler, caller.isLogin = false := fun caller hmem => by
        by_contra hlogin
        exact h.not_exit_of_login hheld (hcaller caller hmem) (by simpa using hlogin) hexit
      cases handler with
      | loading fd id task => cases hno _ (Multiset.mem_singleton_self _)
      | login fd task => cases hno _ (Multiset.mem_singleton_self _)
      | logKick t => cases hno _ (Multiset.mem_singleton_self _)
      | saveKick t => cases hno _ (Multiset.mem_singleton_self _)
      | saveClose fd => exact .inr trivial
      | logout id fd => exact .inr trivial
  · cases hu

theorem bounce (h : AgentOk gate a x) (hheld : Multiset.card x.held ≤ 1) (hexited : x.exited = true) {msg : ToAgent}
    {inbox : List ToAgent} (hinbox : x.inbox = msg :: inbox) : AgentOk gate a ({ x with inbox }.bounce msg) := by
  have hreceive : x.receive false = some ({ x with inbox }.bounce msg) := by
    simp [Agent.receive, hinbox, hexited]
  have hexit := Agent.mem_held_of_exited hexited
  have hmem : msg ∈ x.inbox := by simp [hinbox]
  have hnouser : ∀ u, x.user ≠ some u := fun u hu => by
    cases Agent.eq_of_mem_held hheld (Agent.mem_held_of_user hu) hexit
  have hno : ∀ caller ∈ Agent.callerContent.inbox msg, caller.isLogin = false := fun caller hcaller => by
    by_contra hlogin
    exact h.not_exit_of_login hheld (Agent.mem_total_of_inbox _ hmem hcaller) (by simpa using hlogin) hexit
  have hkept : ({ x with inbox }.bounce msg).user = x.user ∧ ({ x with inbox }.bounce msg).userFd = x.userFd ∧
      ({ x with inbox }.bounce msg).record = x.record ∧ ({ x with inbox }.bounce msg).inbox = inbox ∧
        ({ x with inbox }.bounce msg).kicks = x.kicks := by
    cases msg with
    | kickDone takeover => cases takeover <;> exact ⟨rfl, rfl, rfl, rfl, rfl⟩
    | _ => exact ⟨rfl, rfl, rfl, rfl, rfl⟩
  obtain ⟨huser, huserFd, hrecord, hinbox', hkicks⟩ := hkept
  refine h.of_step (Agent.callers_receive hreceive) (fun id hid => Agent.session_receive hheld hreceive hid)
    (fun hr => hrecord.trans hr) (.inl ⟨huser, huserFd⟩) (fun fd _ => .inr fun u hu => ?_) (fun m hm => ?_) hkicks
    (fun out hout => ?_) fun t _ _ u hu => ?_
  · exact absurd (huser ▸ hu) (hnouser u)
  · rw [hinbox'] at hm
    rw [hinbox]
    exact List.mem_cons_of_mem _ hm
  · have hsend : ∀ msg', out ∈ ({ x with inbox }.send msg').outbox → out ∈ x.outbox ∨ out = msg' := fun msg' hin => by
      simpa [Agent.send] using hin
    cases msg with
    | cmdAgentOpen fd id task => cases hno _ (Multiset.mem_singleton_self _)
    | cmdAgentOtherLogin t => cases hno _ (Multiset.mem_singleton_self _)
    | cmdAgentKick t => cases hno _ (Multiset.mem_singleton_self _)
    | cmdAgentClose fd =>
      refine (hsend _ hout).imp_right ?_
      rintro rfl
      exact trivial
    | closeDone fd =>
      refine (hsend _ hout).imp_right ?_
      rintro rfl
      exact trivial
    | kickDone t =>
      cases t with
      | none => exact .inl hout
      | some t => cases hno _ (Multiset.mem_singleton_self _)
    | testDispatch msg => exact .inl hout
    | selfExit => exact .inl hout
  · exact absurd (huser ▸ hu) (hnouser u)

theorem receive (h : AgentOk gate a x) (hheld : Multiset.card x.held ≤ 1) {bad : Bool} {x' : Agent}
    (hx : x.receive bad = some x') : AgentOk gate a x' := by
  obtain ⟨msg, inbox, hinbox, ⟨hexited, rfl⟩ | ⟨hexited, rfl⟩⟩ := Agent.receive_cases hx
  · exact h.bounce hheld hexited hinbox
  · by_cases hmsg : msg = .selfExit
    · subst hmsg
      exact h.selfExit hheld hinbox
    · exact h.dispatch hheld hexited hinbox bad hmsg

theorem loading (h : AgentOk gate a x) (hheld : Multiset.card x.held ≤ 1) {i : Nat} {fd : Fd} {id : Id}
    {task : Option Task} (hhandler : x.handlers[i]? = some (.loading fd id task)) :
    AgentOk gate a ({ x with handlers := x.handlers.eraseIdx i }.proceed true (.loading fd id task)) := by
  have hresume : x.resume i true = some ({ x with handlers := x.handlers.eraseIdx i }.proceed true (.loading fd id task)) := by
    simp [Agent.resume, hhandler]
  have hcallers := Agent.callers_resume hresume
  have hopening : .opening fd task ∈ x.callers :=
    Agent.mem_total_of_handlers _ (List.mem_of_getElem? hhandler) (Multiset.mem_singleton_self _)
  have hclient : gate.agentOf fd = some none := h.login _ hopening rfl
  have hno : ∀ t, .kicking t ∉ x.callers := fun t ht => by
    cases h.eq_of_login ht rfl hopening rfl
  constructor
  case one => rw [Agent.logins, hcallers]; exact h.one
  case session =>
    intro hne
    rw [Agent.logins, hcallers] at hne
    obtain ⟨id', hid'⟩ := h.session hne
    exact ⟨id', Agent.session_resume hheld hresume hid'⟩
  case userFd => rfl
  case user =>
    rintro u ⟨⟩
    rw [hcallers]
    exact .inl ⟨task, hopening⟩
  case record =>
    rintro u ⟨⟩
    rw [hcallers]
    exact .inr ⟨task, hopening⟩
  case login => rw [hcallers]; exact h.login
  case closing => rw [hcallers]; exact h.closing
  case late =>
    rintro fd' hfd' u ⟨⟩
    have hclosing : .closing fd' ∈ x.callers := hcallers ▸ Agent.closing_of_mem_late hfd'
    rintro rfl
    rcases (h.closing _ hclosing).2 with hnone | hsome
    · cases hclient.symm.trans hnone
    · cases hclient.symm.trans hsome
  case kick =>
    intro f t hmem
    exact absurd (Agent.mem_total_of_outbox _ (show _ ∈ x.outbox from hmem) (Multiset.mem_singleton_self _)) (hno t)
  case kicks =>
    intro f t hmem
    exact absurd (Agent.mem_total_of_kicks _ (show _ ∈ x.kicks from hmem) (Multiset.mem_singleton_self _)) (hno t)
  case kickDone =>
    intro t hmem
    exact absurd (Agent.mem_total_of_inbox _ (show _ ∈ x.inbox from hmem) (Multiset.mem_singleton_self _)) (hno t)
  case kicked =>
    intro t ok hmem
    exact absurd (Agent.mem_total_of_outbox _ (show _ ∈ x.outbox from hmem) (Multiset.mem_singleton_self _)) (hno t)
  case answered => exact h.answered
  case opened => exact h.opened

theorem resume (h : AgentOk gate a x) (hheld : Multiset.card x.held ≤ 1) {i : Nat} {x' : Agent}
    (hx : x.resume i true = some x') : AgentOk gate a x' := by
  have hcallers := Agent.callers_resume hx
  have hsession : ∀ id, some id ∈ x.held → some id ∈ x'.held := fun id hid => Agent.session_resume hheld hx hid
  obtain ⟨handler, hhandler, rfl⟩ := Agent.resume_cases hx
  have hlate : x.late = Agent.lateContent.handler handler + { x with handlers := x.handlers.eraseIdx i }.late :=
    Agent.total_eraseIdx _ hhandler
  have hsend : ∀ {y : Agent} {msg out : ToGamed}, out ∈ (y.send msg).outbox → out ∈ y.outbox ∨ out = msg :=
    fun {y msg out} hmem => by simpa [Agent.send] using hmem
  cases handler with
  | loading fd id task => exact h.loading hheld hhandler
  | login fd task =>
    refine h.of_step hcallers hsession (fun _ => rfl) (.inl ⟨rfl, rfl⟩) (fun fd' hfd' => .inl ?_) (fun m hm => hm)
      rfl (fun out hout => ?_) fun _ _ => Agent.underway_proceed hhandler fun _ _ _ hne => by cases hne
    · rw [hlate]
      rwa [Agent.proceed, Agent.late, Agent.total_ret] at hfd'
    · rcases hsend hout with hout | rfl
      · exact .inl hout
      · exact .inr ⟨rfl, rfl⟩
  | logKick t =>
    have hkicking : .kicking t ∈ x.callers :=
      Agent.mem_total_of_handlers _ (List.mem_of_getElem? hhandler) (Multiset.mem_singleton_self _)
    have hunder : ∀ t', .kicking t' ∈ x.callers → x.Underway gate →
        ({ x with handlers := x.handlers.eraseIdx i }.proceed true (.logKick t)).Underway gate :=
      fun _ _ => Agent.underway_proceed hhandler fun _ _ _ hne => by cases hne
    cases hsave : x.canSave with
    | true =>
      have hproceed : { x with handlers := x.handlers.eraseIdx i }.proceed true (.logKick t) =
          { x with handlers := x.handlers.eraseIdx i }.suspend (.saveKick t) := if_pos hsave
      rw [hproceed] at hcallers hsession hunder ⊢
      refine h.of_step hcallers hsession (fun hr => hr) (.inl ⟨rfl, rfl⟩) (fun fd' hfd' => .inl ?_) (fun m hm => hm) rfl
        (fun out hout => .inl hout) hunder
      rw [hlate]
      rwa [Agent.late, Agent.total_suspend] at hfd'
    | false =>
      have hproceed : { x with handlers := x.handlers.eraseIdx i }.proceed true (.logKick t) =
          { x with handlers := x.handlers.eraseIdx i }.ret (.kicking t) := if_neg fun htrue => by cases hsave.symm.trans htrue
      rw [hproceed] at hcallers hsession hunder ⊢
      refine h.of_step hcallers hsession (fun hr => hr) (.inl ⟨rfl, rfl⟩) (fun fd' hfd' => .inl ?_) (fun m hm => hm) rfl
        (fun out hout => ?_) hunder
      · rw [hlate]
        rwa [Agent.late, Agent.total_ret] at hfd'
      · rcases hsend hout with hout | rfl
        · exact .inl hout
        · refine .inr ⟨rfl, fun u hu => ?_⟩
          cases (h.complete (h.no_opening_of_kicking hkicking) u hu).symm.trans hsave
  | saveKick t =>
    refine h.of_step hcallers hsession (fun hr => hr) (.inl ⟨rfl, rfl⟩) (fun fd' hfd' => .inl ?_) (fun m hm => hm)
      rfl (fun out hout => ?_) fun _ _ => Agent.underway_proceed hhandler fun _ _ _ hne => by cases hne
    · rw [hlate]
      rwa [Agent.proceed, Agent.late, Agent.total_send] at hfd'
    · rcases hsend hout with hout | rfl
      · exact .inl hout
      · exact .inr rfl
  | saveClose fd =>
    rcases Option.eq_none_or_eq_some x.user with huser | ⟨user, huser⟩
    · have hproceed : { x with handlers := x.handlers.eraseIdx i }.proceed true (.saveClose fd) =
          { x with handlers := x.handlers.eraseIdx i }.ret (.closing fd) := by
        simp [Agent.proceed, huser]
      rw [hproceed] at hcallers hsession ⊢
      refine h.of_step hcallers hsession (fun hr => hr) (.inl ⟨rfl, rfl⟩)
        (fun fd' hfd' => .inr fun u hu => ?_) (fun m hm => hm) rfl (fun out hout => ?_) fun t _ _ u hu => ?_
      · cases huser.symm.trans hu
      · rcases hsend hout with hout | rfl
        · exact .inl hout
        · exact .inr trivial
      · cases huser.symm.trans hu
    · have hproceed : { x with handlers := x.handlers.eraseIdx i }.proceed true (.saveClose fd) =
          { x with handlers := x.handlers.eraseIdx i, user := none, userFd := none }.suspend
            (.logout user.account fd) := by
        simp [Agent.proceed, huser]
      rw [hproceed] at hcallers hsession ⊢
      refine h.of_step hcallers hsession (fun hr => hr) (.inr ⟨rfl, rfl⟩)
        (fun fd' hfd' => .inr fun u hu => ?_) (fun m hm => hm) rfl (fun out hout => .inl hout) fun t _ _ u hu => ?_
      · cases hu
      · cases hu
  | logout id fd =>
    refine h.of_step hcallers hsession (fun hr => hr) (.inl ⟨rfl, rfl⟩) (fun fd' hfd' => .inl ?_) (fun m hm => hm)
      rfl (fun out hout => ?_) fun _ _ => Agent.underway_proceed hhandler fun _ _ _ hne => by cases hne
    · rw [hlate]
      rwa [Agent.proceed, Agent.late, Agent.total_send] at hfd'
    · rcases hsend hout with hout | rfl
      · exact .inl hout
      · exact .inr trivial

theorem underway_receive (h : AgentOk gate a x) (hheld : Multiset.card x.held ≤ 1)
    (hno : ∀ fd task, .opening fd task ∉ x.callers) {bad : Bool} {x' : Agent} (hx : x.receive bad = some x')
    (hunder : x.Underway gate) : x'.Underway gate := by
  obtain ⟨msg, inbox, hinbox, ⟨hexited, rfl⟩ | ⟨-, rfl⟩⟩ := Agent.receive_cases hx
  · intro u hu
    have huser : ({ x with inbox }.bounce msg).user = x.user := by
      cases msg with
      | kickDone takeover => cases takeover <;> rfl
      | _ => rfl
    rw [huser] at hu
    cases Agent.eq_of_mem_held hheld (Agent.mem_held_of_user hu) (Agent.mem_held_of_exited hexited)
  · by_cases hmsg : msg = .selfExit
    · subst hmsg
      intro u hu
      cases hu
    · exact Agent.underway_dispatch (h.complete hno) hinbox bad hmsg hunder

theorem underway_resume (hno : ∀ fd task, .opening fd task ∉ x.callers) {i : Nat} {x' : Agent}
    (hx : x.resume i true = some x') (hunder : x.Underway gate) : x'.Underway gate := by
  obtain ⟨handler, hhandler, rfl⟩ := Agent.resume_cases hx
  refine Agent.underway_proceed hhandler ?_ hunder
  rintro fd id task rfl
  exact hno fd task (Agent.mem_total_of_handlers _ (List.mem_of_getElem? hhandler) (Multiset.mem_singleton_self _))

/-! ### Steps of `gamed` -/

end AgentOk

namespace Agent

theorem logins_of_callers {x x' : Agent} (h : x'.callers = x.callers) : x'.logins = x.logins := by
  rw [logins, h, logins]

theorem logins_push (x : Agent) (msg : ToAgent) :
    { x with inbox := x.inbox ++ [msg] }.logins =
      (callerContent.inbox msg).filter (fun caller => caller.isLogin) + x.logins := by
  rw [logins, callers, total_push, Multiset.filter_add]
  rfl

theorem logins_pop_outbox {x : Agent} {msg : ToGamed} {outbox : List ToGamed} (h : x.outbox = msg :: outbox) :
    x.logins = (callerContent.outbox msg).filter (fun caller => caller.isLogin) + { x with outbox }.logins := by
  rw [logins, callers, total_pop_outbox _ h, Multiset.filter_add]
  rfl

theorem logins_pushKick (x : Agent) (fd : Fd) (takeover : Option Takeover) :
    { x with kicks := x.kicks ++ [(fd, takeover)] }.logins =
      (callerContent.kick takeover).filter (fun caller => caller.isLogin) + x.logins := by
  rw [logins, callers, total_pushKick, Multiset.filter_add]
  rfl

theorem logins_eraseKick {x : Agent} {i : Nat} {fd : Fd} {takeover : Option Takeover}
    (h : x.kicks[i]? = some (fd, takeover)) :
    x.logins = (callerContent.kick takeover).filter (fun caller => caller.isLogin) +
      { x with kicks := x.kicks.eraseIdx i }.logins := by
  rw [logins, callers, total_eraseKick _ h, Multiset.filter_add]
  rfl

theorem Underway.push {gate : Gate} {x : Agent} (h : x.Underway gate) (msg : ToAgent) :
    { x with inbox := x.inbox ++ [msg] }.Underway gate := by
  intro u hu
  refine (h u hu).imp_right fun hne hzero => hne ?_
  have hpush : { x with inbox := x.inbox ++ [msg] }.early = _ := total_push earlyContent x msg
  rw [hpush] at hzero
  exact Multiset.le_zero.mp (hzero ▸ Multiset.le_add_left _ _)

theorem Underway.pop {gate : Gate} {x : Agent} (h : x.Underway gate) {msg : ToGamed} {outbox : List ToGamed}
    (houtbox : x.outbox = msg :: outbox) : { x with outbox }.Underway gate := by
  intro u hu
  have hpop : x.early = _ := total_pop_outbox earlyContent houtbox
  have hsame : x.early = { x with outbox }.early := hpop.trans (zero_add _)
  rw [← hsame]
  exact h u hu

theorem early_pushKick (x : Agent) (kick : Fd × Option Takeover) :
    { x with kicks := x.kicks ++ [kick] }.early = x.early :=
  (total_pushKick earlyContent x kick).trans (zero_add _)

theorem early_eraseKick {x : Agent} {i : Nat} {kick : Fd × Option Takeover} (h : x.kicks[i]? = some kick) :
    { x with kicks := x.kicks.eraseIdx i }.early = x.early :=
  ((total_eraseKick earlyContent h).trans (zero_add _)).symm

/-- It does not matter to the close which other close events are still to come. -/
theorem Underway.mono {gate gate' : Gate} {x : Agent} (h : x.Underway gate)
    (hclosing : ∀ u, x.user = some u → gate.closing u.fd ≤ gate'.closing u.fd) : x.Underway gate' :=
  fun u hu => (h u hu).imp_left fun hpos => hpos.trans_le (hclosing u hu)

end Agent

namespace AgentOk

variable {gate : Gate} {a : Handle} {x : Agent}

theorem of_gate (h : AgentOk gate a x) {gate' : Gate}
    (huser : ∀ u, x.user = some u → gate.agentOf u.fd = some (some a) → gate'.agentOf u.fd = some (some a))
    (hlogin : ∀ caller ∈ x.callers, caller.isLogin = true → gate'.agentOf caller.fd = gate.agentOf caller.fd)
    (hclosing : ∀ fd, .closing fd ∈ x.callers →
      gate'.sockets fd ≠ none ∧ (gate'.agentOf fd = none ∨ gate'.agentOf fd = some (some a)))
    (hunder : x.Underway gate → x.Underway gate') : AgentOk gate' a x where
  one := h.one
  session := h.session
  userFd := h.userFd
  user := fun u hu => (h.user u hu).imp_right (huser u hu)
  record := h.record
  login := fun caller hcaller hl => (hlogin caller hcaller hl).trans (h.login caller hcaller hl)
  closing := hclosing
  late := h.late
  kick := h.kick
  kicks := h.kicks
  kickDone := fun t ht => hunder (h.kickDone t ht)
  kicked := fun t ok ht => hunder (h.kicked t ok ht)
  answered := h.answered
  opened := h.opened

theorem push (h : AgentOk gate a x) (msg : ToAgent)
    (hone : ∀ caller ∈ Agent.callerContent.inbox msg, caller.isLogin = true →
      x.logins = 0 ∧ (∃ id, some id ∈ Agent.heldContent.inbox msg + x.held) ∧ gate.agentOf caller.fd = some none)
    (hclosing : ∀ fd, .closing fd ∈ Agent.callerContent.inbox msg →
      gate.sockets fd ≠ none ∧ (gate.agentOf fd = none ∨ gate.agentOf fd = some (some a)))
    (hlate : ∀ fd ∈ Agent.lateContent.inbox msg, ∀ u, x.user = some u → u.fd ≠ fd)
    (hkick : ∀ t, msg = .kickDone (some t) → x.Underway gate) :
    AgentOk gate a { x with inbox := x.inbox ++ [msg] } := by
  have hcallers : { x with inbox := x.inbox ++ [msg] }.callers = Agent.callerContent.inbox msg + x.callers :=
    Agent.total_push _ x msg
  have hheld : { x with inbox := x.inbox ++ [msg] }.held = Agent.heldContent.inbox msg + x.held := Agent.held_push x msg
  have hmore : ∀ caller ∈ x.callers, caller ∈ { x with inbox := x.inbox ++ [msg] }.callers := fun caller hcaller => by
    rw [hcallers]
    exact Multiset.mem_add.mpr (.inr hcaller)
  have hunder : x.Underway gate → { x with inbox := x.inbox ++ [msg] }.Underway gate := fun hunder => hunder.push msg
  have hlogins := Agent.logins_push x msg
  have hcard : Multiset.card (Agent.callerContent.inbox msg) ≤ 1 := by
    cases msg with
    | kickDone t => cases t <;> simp [Agent.callerContent]
    | _ => simp [Agent.callerContent]
  constructor
  case one =>
    rw [hlogins, Multiset.card_add]
    rcases Multiset.empty_or_exists_mem ((Agent.callerContent.inbox msg).filter fun caller => caller.isLogin) with
      hempty | ⟨caller, hcaller⟩
    · rw [hempty, Multiset.card_zero, zero_add]
      exact h.one
    · obtain ⟨hmem, hlogin⟩ := Multiset.mem_filter.mp hcaller
      rw [(hone caller hmem hlogin).1, Multiset.card_zero, add_zero]
      exact (Multiset.card_le_card (Multiset.filter_le _ _)).trans hcard
  case session =>
    intro hne
    rw [hheld]
    rw [hlogins] at hne
    rcases Multiset.empty_or_exists_mem ((Agent.callerContent.inbox msg).filter fun caller => caller.isLogin) with
      hempty | ⟨caller, hcaller⟩
    · rw [hempty, zero_add] at hne
      obtain ⟨id, hid⟩ := h.session hne
      exact ⟨id, Multiset.mem_add.mpr (.inr hid)⟩
    · obtain ⟨hmem, hlogin⟩ := Multiset.mem_filter.mp hcaller
      exact (hone caller hmem hlogin).2.1
  case userFd => exact h.userFd
  case user =>
    intro u hu
    exact (h.user u hu).imp_left (Exists.imp fun _ => hmore _)
  case record =>
    intro u hu
    exact (h.record u hu).imp_right (Exists.imp fun _ => hmore _)
  case login =>
    intro caller hcaller hlogin
    rw [hcallers] at hcaller
    rcases Multiset.mem_add.mp hcaller with hcaller | hcaller
    · exact (hone caller hcaller hlogin).2.2
    · exact h.login caller hcaller hlogin
  case closing =>
    intro fd hfd
    rw [hcallers] at hfd
    rcases Multiset.mem_add.mp hfd with hfd | hfd
    · exact hclosing fd hfd
    · exact h.closing fd hfd
  case late =>
    intro fd hfd
    have hpush : { x with inbox := x.inbox ++ [msg] }.late = _ := Agent.total_push Agent.lateContent x msg
    rw [hpush] at hfd
    rcases Multiset.mem_add.mp hfd with hfd | hfd
    · exact hlate fd hfd
    · exact h.late fd hfd
  case kick => exact h.kick
  case kicks => exact h.kicks
  case kickDone =>
    intro t ht
    rcases List.mem_append.mp ht with ht | ht
    · exact hunder (h.kickDone t ht)
    · exact hunder (hkick t (List.mem_singleton.mp ht).symm)
  case kicked => exact fun t ok ht => hunder (h.kicked t ok ht)
  case answered => exact h.answered
  case opened => exact h.opened

theorem pop (h : AgentOk gate a x) {msg : ToGamed} {outbox : List ToGamed} (houtbox : x.outbox = msg :: outbox)
    (hopening : ∀ fd task, .opening fd task ∉ Agent.callerContent.outbox msg)
    (hclose : ∀ id fd, msg = .cmdGamedClose id fd → x.logins = 0) : AgentOk gate a { x with outbox } := by
  have hcallers : x.callers = Agent.callerContent.outbox msg + { x with outbox }.callers :=
    Agent.total_pop_outbox _ houtbox
  have hheld := Agent.held_pop_outbox houtbox
  have hless : ∀ caller ∈ { x with outbox }.callers, caller ∈ x.callers := fun caller hcaller => by
    rw [hcallers]
    exact Multiset.mem_add.mpr (.inr hcaller)
  have hstay : ∀ fd task, .opening fd task ∈ x.callers → .opening fd task ∈ { x with outbox }.callers :=
    fun fd task hmem => by
      rw [hcallers] at hmem
      exact (Multiset.mem_add.mp hmem).resolve_left (hopening fd task)
  have hout : ∀ out ∈ outbox, out ∈ x.outbox := fun out hmem => by
    rw [houtbox]
    exact List.mem_cons_of_mem _ hmem
  have hlogins : { x with outbox }.logins ≤ x.logins := by
    rw [Agent.logins_pop_outbox houtbox]
    exact Multiset.le_add_left _ _
  have hunder : x.Underway gate → { x with outbox }.Underway gate := fun hunder => hunder.pop houtbox
  constructor
  case one => exact (Multiset.card_le_card hlogins).trans h.one
  case session =>
    intro hne
    have hne' : x.logins ≠ 0 := fun hzero => hne (Multiset.le_zero.mp (hzero ▸ hlogins))
    obtain ⟨id, hid⟩ := h.session hne'
    rw [hheld] at hid
    refine ⟨id, (Multiset.mem_add.mp hid).resolve_left fun hmem => ?_⟩
    cases msg with
    | cmdGamedClose id' fd => exact hne' (hclose id' fd rfl)
    | _ => cases hmem
  case userFd => exact h.userFd
  case user =>
    intro u hu
    exact (h.user u hu).imp_left (Exists.imp fun _ => hstay _ _)
  case record =>
    intro u hu
    exact (h.record u hu).imp_right (Exists.imp fun _ => hstay _ _)
  case login => exact fun caller hcaller => h.login caller (hless caller hcaller)
  case closing => exact fun fd hfd => h.closing fd (hless _ hfd)
  case late =>
    intro fd hfd
    have hpop : x.late = _ := Agent.total_pop_outbox Agent.lateContent houtbox
    refine h.late fd ?_
    rw [hpop]
    exact Multiset.mem_add.mpr (.inr hfd)
  case kick => exact fun f t hmem => h.kick f t (hout _ hmem)
  case kicks => exact h.kicks
  case kickDone => exact fun t ht => hunder (h.kickDone t ht)
  case kicked => exact fun t ok ht => hunder (h.kicked t ok (hout _ ht))
  case answered => exact fun caller ok hmem => h.answered caller ok (hout _ hmem)
  case opened => exact fun fd task ok hmem => h.opened fd task ok (hout _ hmem)

theorem pushKick (h : AgentOk gate a x) {fd : Fd} {takeover : Option Takeover}
    (hone : ∀ t, takeover = some t → x.logins = 0 ∧ (∃ id, some id ∈ x.held) ∧ gate.agentOf t.fd = some none ∧
      ∀ u, x.user = some u → fd = u.fd) :
    AgentOk gate a { x with kicks := x.kicks ++ [(fd, takeover)] } := by
  have hcallers : { x with kicks := x.kicks ++ [(fd, takeover)] }.callers =
      Agent.callerContent.kick takeover + x.callers := Agent.total_pushKick _ x _
  have hheld := Agent.held_pushKick x (fd, takeover)
  have hcases : ∀ caller ∈ { x with kicks := x.kicks ++ [(fd, takeover)] }.callers,
      caller ∈ x.callers ∨ ∃ t, takeover = some t ∧ caller = .kicking t := by
    intro caller hcaller
    rw [hcallers] at hcaller
    rcases Multiset.mem_add.mp hcaller with hnew | hcaller
    · cases takeover with
      | none => cases hnew
      | some t => exact .inr ⟨t, rfl, Multiset.mem_singleton.mp hnew⟩
    · exact .inl hcaller
  have hmore : ∀ caller ∈ x.callers, caller ∈ { x with kicks := x.kicks ++ [(fd, takeover)] }.callers :=
    fun caller hcaller => by
      rw [hcallers]
      exact Multiset.mem_add.mpr (.inr hcaller)
  have hunder : x.Underway gate → { x with kicks := x.kicks ++ [(fd, takeover)] }.Underway gate := by
    intro hunder u hu
    rw [Agent.early_pushKick]
    exact hunder u hu
  have hlogins := Agent.logins_pushKick x fd takeover
  constructor
  case one =>
    cases takeover with
    | none => exact (hlogins.trans (zero_add _)).symm ▸ h.one
    | some t =>
      rw [hlogins, (hone t rfl).1]
      exact le_rfl
  case session =>
    intro hne
    rw [hheld]
    cases takeover with
    | none => exact h.session fun hzero => hne (hlogins.trans ((zero_add _).trans hzero))
    | some t => exact (hone t rfl).2.1
  case userFd => exact h.userFd
  case user =>
    intro u hu
    exact (h.user u hu).imp_left (Exists.imp fun _ => hmore _)
  case record =>
    intro u hu
    exact (h.record u hu).imp_right (Exists.imp fun _ => hmore _)
  case login =>
    intro caller hcaller hlogin
    rcases hcases caller hcaller with hold | ⟨t, ht, rfl⟩
    · exact h.login caller hold hlogin
    · exact (hone t ht).2.2.1
  case closing =>
    intro fd' hfd'
    rcases hcases _ hfd' with hold | ⟨t, -, heq⟩
    · exact h.closing fd' hold
    · cases heq
  case late =>
    have hlate : { x with kicks := x.kicks ++ [(fd, takeover)] }.late = x.late :=
      (Agent.total_pushKick Agent.lateContent x _).trans (zero_add _)
    rw [hlate]
    exact h.late
  case kick => exact h.kick
  case kicks =>
    intro fd' t hmem u hu
    rcases List.mem_append.mp hmem with hmem | hmem
    · exact h.kicks fd' t hmem u hu
    · cases List.mem_singleton.mp hmem
      exact (hone t rfl).2.2.2 u hu
  case kickDone => exact fun t ht => hunder (h.kickDone t ht)
  case kicked => exact fun t ok ht => hunder (h.kicked t ok ht)
  case answered => exact h.answered
  case opened => exact h.opened

theorem eraseKick (h : AgentOk gate a x) {i : Nat} {fd : Fd} {takeover : Option Takeover}
    (hkick : x.kicks[i]? = some (fd, takeover)) : AgentOk gate a { x with kicks := x.kicks.eraseIdx i } := by
  have hcallers : x.callers = Agent.callerContent.kick takeover + { x with kicks := x.kicks.eraseIdx i }.callers :=
    Agent.total_eraseKick _ hkick
  have hheld := Agent.held_eraseKick hkick
  have hless : ∀ caller ∈ { x with kicks := x.kicks.eraseIdx i }.callers, caller ∈ x.callers :=
    fun caller hcaller => by
      rw [hcallers]
      exact Multiset.mem_add.mpr (.inr hcaller)
  have hstay : ∀ fd' task, .opening fd' task ∈ x.callers →
      .opening fd' task ∈ { x with kicks := x.kicks.eraseIdx i }.callers := fun fd' task hmem => by
    rw [hcallers] at hmem
    refine (Multiset.mem_add.mp hmem).resolve_left fun hnew => ?_
    cases takeover with
    | none => cases hnew
    | some t => cases Multiset.mem_singleton.mp hnew
  have hlogins : { x with kicks := x.kicks.eraseIdx i }.logins ≤ x.logins := by
    rw [Agent.logins_eraseKick hkick]
    exact Multiset.le_add_left _ _
  have hunder : x.Underway gate → { x with kicks := x.kicks.eraseIdx i }.Underway gate := by
    intro hunder u hu
    rw [Agent.early_eraseKick hkick]
    exact hunder u hu
  constructor
  case one => exact (Multiset.card_le_card hlogins).trans h.one
  case session =>
    intro hne
    rw [hheld]
    exact h.session fun hzero => hne (Multiset.le_zero.mp (hzero ▸ hlogins))
  case userFd => exact h.userFd
  case user =>
    intro u hu
    exact (h.user u hu).imp_left (Exists.imp fun _ => hstay _ _)
  case record =>
    intro u hu
    exact (h.record u hu).imp_right (Exists.imp fun _ => hstay _ _)
  case login => exact fun caller hcaller => h.login caller (hless caller hcaller)
  case closing => exact fun fd' hfd' => h.closing fd' (hless _ hfd')
  case late =>
    have hlate : { x with kicks := x.kicks.eraseIdx i }.late = x.late :=
      ((Agent.total_eraseKick Agent.lateContent hkick).trans (zero_add _)).symm
    rw [hlate]
    exact h.late
  case kick => exact h.kick
  case kicks => exact fun fd' t hmem => h.kicks fd' t (List.eraseIdx_subset hmem)
  case kickDone => exact fun t ht => hunder (h.kickDone t ht)
  case kicked => exact fun t ok ht => hunder (h.kicked t ok ht)
  case answered => exact h.answered
  case opened => exact h.opened

theorem opening_done (h : AgentOk gate a x) {fd : Fd} {task : Option Task} {ok : Bool} {outbox : List ToGamed}
    (houtbox : x.outbox = .answer (.opening fd task) ok :: outbox) {gate' : Gate}
    (hforward : gate'.agentOf fd = some (some a)) (hkeep : ∀ fd', fd' ≠ fd → gate'.agentOf fd' = gate.agentOf fd')
    (hsockets : gate'.sockets = gate.sockets) : AgentOk gate' a { x with outbox } := by
  have hcallers : x.callers = {.opening fd task} + { x with outbox }.callers := Agent.total_pop_outbox _ houtbox
  have hmem : .opening fd task ∈ x.callers := by
    rw [hcallers]
    exact Multiset.mem_add.mpr (.inl (Multiset.mem_singleton_self _))
  have hclient : gate.agentOf fd = some none := h.login _ hmem rfl
  have hless : ∀ caller ∈ { x with outbox }.callers, caller ∈ x.callers := fun caller hcaller => by
    rw [hcallers]
    exact Multiset.mem_add.mpr (.inr hcaller)
  have hout : ∀ out ∈ outbox, out ∈ x.outbox := fun out hin => by
    rw [houtbox]
    exact List.mem_cons_of_mem _ hin
  have hzero : { x with outbox }.logins = 0 := h.no_other (Agent.logins_pop_outbox houtbox)
  have hno : ∀ caller ∈ { x with outbox }.callers, caller.isLogin = true → False := fun caller hcaller hlogin => by
    have hin : caller ∈ { x with outbox }.logins := Multiset.mem_filter.mpr ⟨hcaller, hlogin⟩
    rw [hzero] at hin
    cases hin
  have hrecord : x.record = true := h.opened fd task ok (by simp [houtbox])
  constructor
  case one => rw [hzero]; exact Nat.zero_le _
  case session => exact fun hne => absurd hzero hne
  case userFd => exact h.userFd
  case user =>
    intro u hu
    refine .inr ?_
    rcases h.user u hu with ⟨task', hopening⟩ | hof
    · have heq : u.fd = fd := congrArg Caller.fd (h.eq_of_login hopening rfl hmem rfl)
      rw [heq]
      exact hforward
    · rw [hkeep u.fd fun heq => by rw [heq, hclient] at hof; cases hof]
      exact hof
  case record => exact fun _ _ => .inl hrecord
  case login => exact fun caller hcaller hlogin => (hno caller hcaller hlogin).elim
  case closing =>
    intro fd' hfd'
    obtain ⟨hsocket, hof⟩ := h.closing fd' (hless _ hfd')
    rw [hsockets, hkeep fd' fun heq => by rw [heq, hclient] at hof; simp at hof]
    exact ⟨hsocket, hof⟩
  case late =>
    intro fd' hfd'
    have hpop : x.late = _ := Agent.total_pop_outbox Agent.lateContent houtbox
    refine h.late fd' ?_
    rw [hpop]
    exact Multiset.mem_add.mpr (.inr hfd')
  case kick => exact fun f t hin => h.kick f t (hout _ hin)
  case kicks => exact h.kicks
  case kickDone =>
    exact fun t hin => (hno _ (Agent.mem_total_of_inbox _ hin (Multiset.mem_singleton_self _)) rfl).elim
  case kicked =>
    exact fun t ok' hin => (hno _ (Agent.mem_total_of_outbox _ hin (Multiset.mem_singleton_self _)) rfl).elim
  case answered => exact fun caller ok' hin => h.answered caller ok' (hout _ hin)
  case opened => exact fun fd' task' ok' hin => h.opened fd' task' ok' (hout _ hin)

end AgentOk

end SkynetServer.Game
