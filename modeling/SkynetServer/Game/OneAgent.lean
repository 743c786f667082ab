import SkynetServer.Game.Gamed

/-!
# One agent for each account

A session of an account is what goes from `forward_agent` to the handling of `cmd_gamed_close`: the call that opens the
agent, the user, the call that reports the close. An agent holds at most one session, and none while it is in
`clear_pool`, while its `cmd_gamed_close` waits for another agent, and once it is told to leave. As long as no login
finds `online_account` empty while another one waits in `create_agent`, the sessions of an account are all with the agent
that `online_account` names. What the clients, the gate and the database do in the meantime does not matter.
-/

namespace SkynetServer.Game

open Lib

/-! ### What an agent holds -/

namespace Agent

/-- The sessions, as `some id`, and the orders to leave. -/
def heldContent : Content (Option Id) where
  inbox
    | .cmdAgentOpen _ id _ => {some id}
    | .selfExit => {none}
    | _ => 0
  handler
    | .loading _ id _ => {some id}
    | .logout id _ => {some id}
    | _ => 0
  outbox
    | .cmdGamedClose id _ => {some id}
    | _ => 0
  kick := fun _ => 0

def held (x : Agent) : Multiset (Option Id) :=
  x.total heldContent + (x.user.elim 0 fun user => {some user.account}) + if x.exited then {none} else 0

@[simp] theorem held_send (x : Agent) (msg : ToGamed) : (x.send msg).held = heldContent.outbox msg + x.held := by
  simp only [held, total_send]
  change _ + _ + (x.user.elim 0 _) + (if x.exited then _ else _) = _
  abel

@[simp] theorem held_ret (x : Agent) (caller : Caller) : (x.ret caller).held = x.held := by
  rw [ret, held_send]
  exact zero_add _

@[simp] theorem held_suspend (x : Agent) (handler : Handler) :
    (x.suspend handler).held = heldContent.handler handler + x.held := by
  simp only [held, total_suspend]
  change _ + _ + (x.user.elim 0 _) + (if x.exited then _ else _) = _
  abel

theorem held_push (x : Agent) (msg : ToAgent) :
    { x with inbox := x.inbox ++ [msg] }.held = heldContent.inbox msg + x.held := by
  simp only [held, total_push]
  abel

theorem held_pop {x : Agent} {msg : ToAgent} {inbox : List ToAgent} (h : x.inbox = msg :: inbox) :
    x.held = heldContent.inbox msg + { x with inbox }.held := by
  simp only [held, total_pop _ h]
  abel

theorem held_pop_outbox {x : Agent} {msg : ToGamed} {outbox : List ToGamed} (h : x.outbox = msg :: outbox) :
    x.held = heldContent.outbox msg + { x with outbox }.held := by
  simp only [held, total_pop_outbox _ h]
  abel

theorem held_pushKick (x : Agent) (kick : Fd × Option Takeover) :
    { x with kicks := x.kicks ++ [kick] }.held = x.held := by
  simp only [held, total_pushKick, heldContent, zero_add]

theorem held_eraseKick {x : Agent} {i : Nat} {kick : Fd × Option Takeover} (h : x.kicks[i]? = some kick) :
    { x with kicks := x.kicks.eraseIdx i }.held = x.held := by
  simp only [held, total_eraseKick _ h, heldContent, zero_add]

theorem held_eraseIdx {x : Agent} {i : Nat} {handler : Handler} (h : x.handlers[i]? = some handler) :
    x.held = heldContent.handler handler + { x with handlers := x.handlers.eraseIdx i }.held := by
  simp only [held, total_eraseIdx _ h]
  abel

theorem held_setUser (x : Agent) (user : Option User) (userFd : Option Fd) :
    { x with user, userFd }.held =
      x.total heldContent + (user.elim 0 fun user => {some user.account}) + if x.exited then {none} else 0 := rfl

theorem held_dispatch (x : Agent) (bad : Bool) (msg : ToAgent) (hmsg : msg ≠ .selfExit) :
    (x.dispatch bad msg).held = heldContent.inbox msg + x.held := by
  cases msg with
  | cmdAgentOpen fd id task => exact held_suspend x _
  | cmdAgentOtherLogin takeover => simp [dispatch, heldContent]
  | cmdAgentKick takeover => simp [dispatch, heldContent]
  | cmdAgentClose fd =>
    simp only [dispatch]
    split <;> simp [heldContent]
  | testDispatch msg =>
    simp only [dispatch]
    split <;> simp [heldContent]
  | selfExit => exact absurd rfl hmsg
  | closeDone fd => simp [dispatch, heldContent]
  | kickDone takeover => cases takeover <;> simp [dispatch, heldContent]

theorem held_selfExit_le (x : Agent) : x.selfExit.held ≤ {none} + x.held := by
  have habandon : (x.handlers.map (heldContent.outbox ∘ abandon)).sum = 0 := by
    refine List.sum_eq_zero fun held hheld => ?_
    obtain ⟨handler, -, rfl⟩ := List.mem_map.mp hheld
    cases handler <;> rfl
  refine Multiset.le_iff_exists_add.mpr ⟨(x.handlers.map heldContent.handler).sum +
    (x.user.elim 0 fun user => {some user.account}) + if x.exited then {none} else 0, ?_⟩
  simp only [held, total, selfExit, List.map_append, List.map_map, List.sum_append, habandon, List.map_nil,
    List.sum_nil, Option.elim_none, if_true]
  abel

theorem held_bounce_le (x : Agent) (msg : ToAgent) : (x.bounce msg).held ≤ heldContent.inbox msg + x.held := by
  have hle : x.held ≤ heldContent.inbox msg + x.held := Multiset.le_add_left _ _
  cases msg with
  | kickDone takeover => cases takeover <;> simp [bounce, heldContent]
  | testDispatch msg => exact hle
  | selfExit => exact hle
  | cmdAgentOpen fd id task => simpa [bounce, heldContent] using hle
  | _ => simp [bounce, heldContent]

theorem held_receive_le {x x' : Agent} {bad : Bool} (h : x.receive bad = some x') : x'.held ≤ x.held := by
  obtain ⟨msg, inbox, hinbox, ⟨-, rfl⟩ | ⟨-, rfl⟩⟩ := receive_cases h
  · rw [held_pop hinbox]
    exact held_bounce_le _ msg
  · rw [held_pop hinbox]
    by_cases hmsg : msg = .selfExit
    · subst hmsg
      exact held_selfExit_le _
    · exact (held_dispatch _ bad msg hmsg).le

/-- The user of a session that is loaded takes the place of the one before it, if there is one. -/
theorem held_proceed_le (x : Agent) (ok : Bool) (handler : Handler) :
    (x.proceed ok handler).held ≤ heldContent.handler handler + x.held := by
  cases handler with
  | loading fd id task =>
    cases ok with
    | false =>
      simp only [proceed, Bool.false_eq_true, if_false, held_ret]
      exact Multiset.le_add_left _ _
    | true =>
      simp only [proceed, if_true, held_suspend, held_setUser, heldContent, Option.elim_some]
      refine Multiset.le_iff_exists_add.mpr ⟨x.user.elim 0 fun user => {some user.account}, ?_⟩
      rw [held, heldContent]
      abel
  | login fd task =>
    simp only [proceed, held_ret]
    exact Multiset.le_add_left _ _
  | logKick takeover =>
    simp only [proceed]
    split
    · rw [held_suspend]
      exact le_rfl
    · rw [held_ret]
      exact Multiset.le_add_left _ _
  | saveKick takeover =>
    simp only [proceed, held_send]
    exact le_rfl
  | saveClose fd =>
    simp only [proceed]
    split
    · rename_i user huser
      rw [held_suspend, held_setUser, held, huser]
      simp only [heldContent, Option.elim_some, Option.elim_none]
      refine le_of_eq ?_
      abel
    · rw [held_ret]
      exact Multiset.le_add_left _ _
  | logout id fd =>
    simp only [proceed, held_send]
    exact le_rfl

theorem held_resume_le {x x' : Agent} {i : Nat} {ok : Bool} (h : x.resume i ok = some x') : x'.held ≤ x.held := by
  obtain ⟨handler, hhandler, rfl⟩ := resume_cases h
  rw [held_eraseIdx hhandler]
  exact held_proceed_le _ ok handler

theorem leaving_receive {x x' : Agent} {bad : Bool} (h : x.receive bad = some x') (hmem : none ∈ x.held) :
    none ∈ x'.held := by
  obtain ⟨msg, inbox, hinbox, ⟨hexited, rfl⟩ | ⟨-, rfl⟩⟩ := receive_cases h
  · have hexited' : ({ x with inbox }.bounce msg).exited = true := by
      cases msg with
      | kickDone takeover => cases takeover <;> exact hexited
      | _ => exact hexited
    simp [held, hexited']
  · by_cases hmsg : msg = .selfExit
    · subst hmsg
      simp [held, dispatch, selfExit]
    · rw [held_dispatch _ bad msg hmsg, ← held_pop hinbox]
      exact hmem

theorem leaving_proceed {x : Agent} {ok : Bool} {handler : Handler} (h : none ∈ heldContent.handler handler + x.held) :
    none ∈ (x.proceed ok handler).held := by
  have hrest : none ∈ x.held := by
    refine (Multiset.mem_add.mp h).resolve_left fun hmem => ?_
    cases handler with
    | loading fd id task => cases Multiset.mem_singleton.mp hmem
    | logout id fd => cases Multiset.mem_singleton.mp hmem
    | _ => cases hmem
  have hother : none ∈ x.total heldContent + (if x.exited then {none} else 0) := by
    rw [held] at hrest
    cases huser : x.user with
    | none => simpa [huser] using hrest
    | some user => simpa [huser] using hrest
  cases handler with
  | loading fd id task =>
    cases ok with
    | false =>
      rw [proceed, if_neg Bool.false_ne_true, held_ret]
      exact hrest
    | true =>
      rw [proceed, if_pos rfl, held_suspend, held_setUser]
      simpa [heldContent] using hother
  | login fd task =>
    rw [proceed, held_ret]
    exact hrest
  | logKick takeover =>
    simp only [proceed]
    split
    · rw [held_suspend]
      exact Multiset.mem_add.mpr (.inr hrest)
    · rw [held_ret]
      exact hrest
  | saveKick takeover =>
    rw [proceed, held_send]
    exact Multiset.mem_add.mpr (.inr hrest)
  | saveClose fd =>
    simp only [proceed]
    split
    · rename_i user _
      rw [held_suspend, held_setUser]
      simpa [heldContent] using hother
    · rw [held_ret]
      exact hrest
  | logout id fd =>
    rw [proceed, held_send]
    exact Multiset.mem_add.mpr (.inr hrest)

theorem leaving_resume {x x' : Agent} {i : Nat} {ok : Bool} (h : x.resume i ok = some x') (hmem : none ∈ x.held) :
    none ∈ x'.held := by
  obtain ⟨handler, hhandler, rfl⟩ := resume_cases h
  rw [held_eraseIdx hhandler] at hmem
  exact leaving_proceed hmem

theorem eq_of_mem_held {x : Agent} (hheld : Multiset.card x.held ≤ 1) {held held' : Option Id} (h : held ∈ x.held)
    (h' : held' ∈ x.held) : held = held' := by
  obtain ⟨only, honly⟩ := Multiset.card_eq_one.mp (Nat.le_antisymm hheld
    (Multiset.card_pos_iff_exists_mem.mpr ⟨held, h⟩))
  rw [honly, Multiset.mem_singleton] at h h'
  exact h.trans h'.symm

theorem mem_held_of_exited {x : Agent} (h : x.exited = true) : none ∈ x.held :=
  Multiset.mem_add.mpr (.inr (by simp [h]))

theorem mem_held_of_user {x : Agent} {u : User} (h : x.user = some u) : some u.account ∈ x.held :=
  Multiset.mem_add.mpr (.inl (Multiset.mem_add.mpr (.inr (by simp [h]))))

end Agent

/-! ### What is held of an agent -/

namespace Gamed

/-- What the agent holds, and the places of `gamed` that hold the agent. -/
def tokens (s : Gamed) (a : Handle) : Nat :=
  Multiset.card (s.agent a).held + s.clearPool.count (fun pooled => a = pooled.agent) +
    s.recycling.count (fun r => a = r.agent)

theorem agent_setAgent (s : Gamed) (a b : Handle) (x : Agent) :
    (s.setAgent a x).agent b = if b = a then x else s.agent b :=
  Function.update_apply _ _ _ _

theorem agent_popOutbox_self (s : Gamed) (a : Handle) (outbox : List ToGamed) :
    (s.popOutbox a outbox).agent a = { s.agent a with outbox } := by
  rw [popOutbox, agent_setAgent, if_pos rfl]

theorem held_send (s : Gamed) (a b : Handle) (msg : ToAgent) :
    ((s.send a msg).agent b).held = (s.agent b).held + if b = a then Agent.heldContent.inbox msg else 0 := by
  rw [send, agent_setAgent]
  by_cases hb : b = a
  · subst hb
    rw [if_pos rfl, if_pos rfl, Agent.held_push, add_comm]
  · rw [if_neg hb, if_neg hb, add_zero]

theorem tokens_send (s : Gamed) (a b : Handle) (msg : ToAgent) :
    (s.send a msg).tokens b =
      s.tokens b + if b = a then Multiset.card (Agent.heldContent.inbox msg) else 0 := by
  simp only [tokens, held_send, Multiset.card_add]
  change _ + _ + s.clearPool.count _ + s.recycling.count _ = _
  split_ifs
  · omega
  · rw [Multiset.card_zero]
    omega

theorem tokens_recycle (s : Gamed) (agent : Handle) (id : Id) (fd : Fd) (now : Nat) (b : Handle) :
    (s.recycle agent id fd now).tokens b = s.tokens b + if b = agent then 1 else 0 := by
  unfold recycle
  rw [tokens_send]
  simp only [Agent.heldContent, Multiset.card_zero, ite_self, add_zero]
  cases hlookup : s.clearPool.lookup id with
  | none =>
    simp only [tokens, Table.count_insert_of_lookup _ _ hlookup, decide_eq_true_eq]
    omega
  | some pooled =>
    have hcount := Table.count_erase_of_lookup (fun pooled => decide (b = pooled.agent)) hlookup
    have hsend := s.tokens_send pooled.agent b .selfExit
    simp only [tokens, Table.count_insert, decide_eq_true_eq] at hcount hsend ⊢
    change _ + s.clearPool.count _ + _ = _ at hsend
    change _ + (Table.count _ (s.clearPool.erase id) + _) + _ = _
    rw [hcount] at hsend ⊢
    simp only [Agent.heldContent, Multiset.card_singleton] at hsend
    omega

theorem tokens_openAgent (s : Gamed) (fd : Fd) (id : Id) (task : Option Task) (agent b : Handle) :
    (s.openAgent fd id task agent).tokens b = s.tokens b + if b = agent then 1 else 0 :=
  tokens_send _ agent b (.cmdAgentOpen fd id task)

theorem tokens_forwardAgent (s : Gamed) (fd : Fd) (id : Id) (task : Option Task) (b : Handle) :
    (s.forwardAgent fd id task).tokens b = s.tokens b := by
  unfold forwardAgent
  cases hlookup : s.clearPool.lookup id with
  | none => rfl
  | some pooled =>
    have hcount := Table.count_erase_of_lookup (fun pooled => decide (b = pooled.agent)) hlookup
    simp only [decide_eq_true_eq] at hcount
    simp only [tokens_openAgent]
    simp only [tokens, hcount]
    omega

theorem tokens_suspendClose {s : Gamed} (htask : s.recycling.lookup s.nextTask = none) (r : Recycling) (b : Handle) :
    (s.suspendClose r).tokens b = s.tokens b + if b = r.agent then 1 else 0 := by
  simp only [suspendClose, tokens, Table.count_insert_of_lookup _ _ htask, decide_eq_true_eq]
  omega

theorem tokens_cmdGamedClose {s : Gamed} (htask : s.recycling.lookup s.nextTask = none) (agent : Handle) (id : Id)
    (fd : Fd) (b : Handle) :
    (s.cmdGamedClose agent id fd).tokens b = s.tokens b + if b = agent then 1 else 0 := by
  unfold cmdGamedClose
  split
  · split
    · rw [tokens_forwardAgent]
      exact tokens_suspendClose htask _ b
    · exact tokens_suspendClose htask _ b
  · exact tokens_suspendClose htask _ b

theorem tokens_marked (s : Gamed) (task : Task) (b : Handle) :
    { s with recycling := s.recycling.modify task fun r => { r with logging := true } }.tokens b = s.tokens b := by
  have hcount := Table.count_modify (fun r => decide (b = r.agent)) (f := fun r => { r with logging := true })
    (fun _ => rfl) s.recycling task
  simp only [tokens, hcount]

theorem tokens_recycled {s : Gamed} {task : Task} {r : Recycling} (hlookup : s.recycling.lookup task = some r)
    (now : Nat) (b : Handle) :
    ({ s with recycling := s.recycling.erase task }.recycle r.agent r.id r.fd now).tokens b = s.tokens b := by
  have hcount := Table.count_erase_of_lookup (fun r => decide (b = r.agent)) hlookup
  simp only [decide_eq_true_eq] at hcount
  simp only [tokens_recycle]
  simp only [tokens, hcount]
  omega

theorem tokens_dropped_le {s : Gamed} {task : Task} {r : Recycling} (hlookup : s.recycling.lookup task = some r)
    (b : Handle) :
    ({ s with recycling := s.recycling.erase task }.send r.agent (.closeDone r.fd)).tokens b ≤ s.tokens b := by
  have hcount := Table.count_erase_of_lookup (fun r => decide (b = r.agent)) hlookup
  simp only [tokens_send, Agent.heldContent, Multiset.card_zero, ite_self]
  simp only [tokens, hcount]
  omega

theorem tokens_expire (now : Nat) (s : Gamed) (id : Id) (b : Handle) : (s.expire now id).tokens b = s.tokens b := by
  unfold expire
  cases hlookup : s.clearPool.lookup id with
  | none => rfl
  | some pooled =>
    dsimp only
    split
    · have hcount := Table.count_erase_of_lookup (fun pooled => decide (b = pooled.agent)) hlookup
      have hsend := s.tokens_send pooled.agent b .selfExit
      simp only [tokens, decide_eq_true_eq] at hcount hsend ⊢
      change _ + s.clearPool.count _ + _ = _ at hsend
      rw [hcount] at hsend ⊢
      simp only [Agent.heldContent, Multiset.card_singleton] at hsend
      change _ + _ + s.recycling.count _ = _ at hsend
      change _ + _ + s.recycling.count _ = _
      omega
    · rfl

theorem tokens_setAgent_le {s : Gamed} {a : Handle} {x : Agent} (h : x.held ≤ (s.agent a).held) (b : Handle) :
    (s.setAgent a x).tokens b ≤ s.tokens b := by
  have hcard : Multiset.card ((s.setAgent a x).agent b).held ≤ Multiset.card (s.agent b).held := by
    rw [agent_setAgent]
    split
    · rename_i hb
      exact hb ▸ Multiset.card_le_card h
    · exact le_rfl
  exact Nat.add_le_add_right (Nat.add_le_add_right hcard _) _

/-! ### Steps that begin no session -/

/-- The tables of accounts stay as they are, and no session begins. -/
structure Same (s s' : Gamed) : Prop where
  onlineAccount : s'.onlineAccount = s.onlineAccount
  info : ∀ ref, (s'.info ref).agent = (s.info ref).agent
  nextInfo : s'.nextInfo = s.nextInfo
  creating : s'.creating = s.creating
  recycling : s'.recycling = s.recycling
  nextTask : s'.nextTask = s.nextTask
  session : ∀ a id, some id ∈ (s'.agent a).held → some id ∈ (s.agent a).held
  opening : ∀ a fd task, .opening fd task ∈ (s'.agent a).callers → .opening fd task ∈ (s.agent a).callers

/-- Moreover nothing is held that was not held before, and only agents of `clear_pool` are told to leave. -/
structure Idle (s s' : Gamed) : Prop extends Same s s' where
  nextAgent : s'.nextAgent = s.nextAgent
  tokens : ∀ b, s'.tokens b ≤ s.tokens b
  pool : ∀ id pooled, s'.clearPool.lookup id = some pooled → s.clearPool.lookup id = some pooled
  leaving : ∀ b, none ∈ (s.agent b).held → none ∈ (s'.agent b).held
  told : ∀ b, none ∈ (s'.agent b).held →
    none ∈ (s.agent b).held ∨ ∃ id pooled, s.clearPool.lookup id = some pooled ∧ pooled.agent = b

theorem Same.refl (s : Gamed) : s.Same s :=
  ⟨rfl, fun _ => rfl, rfl, rfl, rfl, rfl, fun _ _ h => h, fun _ _ _ h => h⟩

theorem Same.trans {s₁ s₂ s₃ : Gamed} (h : s₁.Same s₂) (h' : s₂.Same s₃) : s₁.Same s₃ where
  onlineAccount := h'.onlineAccount.trans h.onlineAccount
  info := fun ref => (h'.info ref).trans (h.info ref)
  nextInfo := h'.nextInfo.trans h.nextInfo
  creating := h'.creating.trans h.creating
  recycling := h'.recycling.trans h.recycling
  nextTask := h'.nextTask.trans h.nextTask
  session := fun a id hmem => h.session a id (h'.session a id hmem)
  opening := fun a fd task hmem => h.opening a fd task (h'.opening a fd task hmem)

theorem idle_frame (s : Gamed) (gate : Gate) (pendingMsg : Fd → Option (List String)) (authenticating refused : List Fd)
    (accepted : Fd → Option Id) : s.Idle { s with gate, pendingMsg, authenticating, refused, accepted } where
  toSame := ⟨rfl, fun _ => rfl, rfl, rfl, rfl, rfl, fun _ _ h => h, fun _ _ _ h => h⟩
  nextAgent := rfl
  tokens := fun _ => le_rfl
  pool := fun _ _ h => h
  leaving := fun _ h => h
  told := fun _ h => .inl h

theorem Idle.refl (s : Gamed) : s.Idle s := idle_frame s _ _ _ _ _

theorem Idle.trans {s₁ s₂ s₃ : Gamed} (h : s₁.Idle s₂) (h' : s₂.Idle s₃) : s₁.Idle s₃ where
  toSame := h.toSame.trans h'.toSame
  nextAgent := h'.nextAgent.trans h.nextAgent
  tokens := fun b => (h'.tokens b).trans (h.tokens b)
  pool := fun id pooled hlookup => h.pool id pooled (h'.pool id pooled hlookup)
  leaving := fun b hmem => h'.leaving b (h.leaving b hmem)
  told := fun b hmem => by
    rcases h'.told b hmem with hmem | ⟨id, pooled, hlookup, hagent⟩
    · exact h.told b hmem
    · exact .inr ⟨id, pooled, h.pool id pooled hlookup, hagent⟩

theorem idle_setAgent {s : Gamed} {a : Handle} {x : Agent} (hheld : x.held ≤ (s.agent a).held)
    (hcallers : ∀ fd task, .opening fd task ∈ x.callers → .opening fd task ∈ (s.agent a).callers)
    (hleaving : none ∈ (s.agent a).held → none ∈ x.held) : s.Idle (s.setAgent a x) where
  onlineAccount := rfl
  info := fun _ => rfl
  nextInfo := rfl
  creating := rfl
  recycling := rfl
  nextTask := rfl
  nextAgent := rfl
  session := fun b id hmem => by
    rw [agent_setAgent] at hmem
    split at hmem
    · rename_i hb
      exact hb ▸ Multiset.mem_of_le hheld hmem
    · exact hmem
  opening := fun b fd task hmem => by
    rw [agent_setAgent] at hmem
    split at hmem
    · rename_i hb
      exact hb ▸ hcallers fd task hmem
    · exact hmem
  tokens := tokens_setAgent_le hheld
  pool := fun _ _ h => h
  leaving := fun b hmem => by
    rw [agent_setAgent]
    split
    · rename_i hb
      exact hleaving (hb ▸ hmem)
    · exact hmem
  told := fun b hmem => .inl <| by
    rw [agent_setAgent] at hmem
    split at hmem
    · rename_i hb
      exact hb ▸ Multiset.mem_of_le hheld hmem
    · exact hmem

theorem callers_send (s : Gamed) (a b : Handle) (msg : ToAgent) :
    ((s.send a msg).agent b).callers =
      (s.agent b).callers + if b = a then Agent.callerContent.inbox msg else 0 := by
  rw [send, agent_setAgent]
  by_cases hb : b = a
  · subst hb
    rw [if_pos rfl, if_pos rfl, add_comm]
    exact Agent.total_push _ _ _
  · rw [if_neg hb, if_neg hb, add_zero]

theorem same_send (s : Gamed) (a : Handle) {msg : ToAgent} (hheld : ∀ id, some id ∉ Agent.heldContent.inbox msg)
    (hopening : ∀ fd task, .opening fd task ∉ Agent.callerContent.inbox msg) : s.Same (s.send a msg) where
  onlineAccount := rfl
  info := fun _ => rfl
  nextInfo := rfl
  creating := rfl
  recycling := rfl
  nextTask := rfl
  session := fun b id hmem => by
    rw [held_send] at hmem
    rcases Multiset.mem_add.mp hmem with hmem | hmem
    · exact hmem
    · split at hmem
      · exact absurd hmem (hheld id)
      · cases hmem
  opening := fun b fd task hmem => by
    rw [callers_send] at hmem
    rcases Multiset.mem_add.mp hmem with hmem | hmem
    · exact hmem
    · split at hmem
      · exact absurd hmem (hopening fd task)
      · cases hmem

theorem idle_send (s : Gamed) (a : Handle) {msg : ToAgent} (hheld : Agent.heldContent.inbox msg = 0)
    (hopening : ∀ fd task, .opening fd task ∉ Agent.callerContent.inbox msg) : s.Idle (s.send a msg) where
  toSame := same_send s a (by simp [hheld]) hopening
  nextAgent := rfl
  tokens := fun b => by rw [tokens_send, hheld, Multiset.card_zero, ite_self, add_zero]
  pool := fun _ _ h => h
  leaving := fun b hmem => by
    rw [held_send]
    exact Multiset.mem_add.mpr (.inl hmem)
  told := fun b hmem => by
    rw [held_send, hheld, ite_self, add_zero] at hmem
    exact .inl hmem

theorem idle_gate (s : Gamed) (gate : Gate) : s.Idle { s with gate } := idle_frame s gate _ _ _ _

theorem idle_closeFd (s : Gamed) (fd : Fd) : s.Idle (s.closeFd fd) := by
  unfold closeFd
  split
  · exact .refl s
  · split
    · exact idle_send s _ rfl (by simp [Agent.callerContent])
    · exact idle_gate s _

theorem idle_dispatchMsg (s : Gamed) (fd : Fd) (msg : String) : s.Idle (s.dispatchMsg fd msg) := by
  unfold dispatchMsg
  split
  · exact .refl s
  · split
    · exact idle_send s _ rfl (by simp [Agent.callerContent])
    · exact idle_frame s _ _ _ _ _
    · exact idle_frame s _ _ _ _ _

theorem idle_popOutbox {s : Gamed} {a : Handle} {msg : ToGamed} {outbox : List ToGamed}
    (h : (s.agent a).outbox = msg :: outbox) : s.Idle (s.popOutbox a outbox) := by
  refine idle_setAgent ?_ (fun fd task hopening => ?_) fun hmem => ?_
  · rw [Agent.held_pop_outbox h]
    exact Multiset.le_add_left _ _
  · rw [Agent.callers, Agent.total_pop_outbox _ h]
    exact Multiset.mem_add.mpr (.inr hopening)
  · rw [Agent.held_pop_outbox h] at hmem
    refine (Multiset.mem_add.mp hmem).resolve_left fun hmsg => ?_
    cases msg with
    | cmdGamedClose id fd => cases Multiset.mem_singleton.mp hmsg
    | _ => cases hmsg

theorem idle_pushKick (s : Gamed) (a : Handle) (kick : Fd × Option Takeover) :
    s.Idle (s.setAgent a { s.agent a with kicks := (s.agent a).kicks ++ [kick] }) := by
  have hheld := Agent.held_pushKick (s.agent a) kick
  refine idle_setAgent hheld.le (fun fd task hopening => ?_) fun hmem => hheld.symm ▸ hmem
  rw [Agent.callers, Agent.total_pushKick] at hopening
  refine (Multiset.mem_add.mp hopening).resolve_left fun hmem => ?_
  obtain ⟨fd', takeover⟩ := kick
  cases takeover <;> simp [Agent.callerContent] at hmem

theorem idle_kickDone (s : Gamed) (a : Handle) (takeover : Option Takeover) : s.Idle (s.send a (.kickDone takeover)) :=
  idle_send s a rfl (by cases takeover <;> simp [Agent.callerContent])

theorem idle_cmdGamedKick (s : Gamed) (a : Handle) (userFd : Option Fd) (takeover : Option Takeover) :
    s.Idle (s.cmdGamedKick a userFd takeover) := by
  unfold cmdGamedKick
  split
  · split
    · exact idle_pushKick s a _
    · exact idle_kickDone s a takeover
  · exact idle_kickDone s a takeover

theorem idle_kicked {s : Gamed} {a : Handle} {i : Nat} {fd : Fd} {takeover : Option Takeover}
    (h : (s.agent a).kicks[i]? = some (fd, takeover)) (gate : Gate) :
    s.Idle ({ s.setAgent a { s.agent a with kicks := (s.agent a).kicks.eraseIdx i } with gate }.send a
      (.kickDone takeover)) := by
  have herase : s.Idle (s.setAgent a { s.agent a with kicks := (s.agent a).kicks.eraseIdx i }) := by
    have hheld := Agent.held_eraseKick h
    refine idle_setAgent hheld.le (fun fd task hopening => ?_) fun hmem => hheld.symm ▸ hmem
    rw [Agent.callers, Agent.total_eraseKick _ h]
    exact Multiset.mem_add.mpr (.inr hopening)
  exact (herase.trans (idle_gate _ gate)).trans (idle_kickDone _ a takeover)

theorem idle_kicking (s : Gamed) (takeover : Takeover) :
    s.Idle { s with
      info := Function.update s.info takeover.info { s.info takeover.info with kick := some takeover.fd } } where
  onlineAccount := rfl
  info := fun ref => by
    by_cases href : ref = takeover.info
    · subst href
      simp
    · simp [href]
  nextInfo := rfl
  creating := rfl
  recycling := rfl
  nextTask := rfl
  session := fun _ _ h => h
  opening := fun _ _ _ h => h
  nextAgent := rfl
  tokens := fun _ => le_rfl
  pool := fun _ _ h => h
  leaving := fun _ h => h
  told := fun _ h => .inl h

theorem same_recycle (s : Gamed) (agent : Handle) (id : Id) (fd : Fd) (now : Nat) :
    s.Same (s.recycle agent id fd now) := by
  have hpool : ∀ s' : Gamed, s.Same s' →
      s.Same ({ s' with clearPool := s'.clearPool.insert id ⟨agent, now + expireCleanTime⟩ }.send agent
        (.closeDone fd)) := by
    intro s' hsame
    refine (hsame.trans ?_).trans (same_send _ agent (by simp [Agent.heldContent]) (by simp [Agent.callerContent]))
    exact ⟨rfl, fun _ => rfl, rfl, rfl, rfl, rfl, fun _ _ h => h, fun _ _ _ h => h⟩
  apply hpool
  split
  · exact same_send s _ (by simp [Agent.heldContent]) (by simp [Agent.callerContent])
  · exact .refl s

theorem idle_expire (now : Nat) (s : Gamed) (id : Id) : s.Idle (s.expire now id) := by
  have htokens := fun b => (tokens_expire now s id b).le
  revert htokens
  unfold expire
  split
  · rename_i pooled hlookup
    split
    · intro htokens
      have hexit : s.Same (s.send pooled.agent .selfExit) :=
        same_send s _ (by simp [Agent.heldContent]) (by simp [Agent.callerContent])
      refine ⟨hexit.trans ⟨rfl, fun _ => rfl, rfl, rfl, rfl, rfl, fun _ _ h => h, fun _ _ _ h => h⟩, rfl, htokens,
        fun id' pooled' hlookup' => ?_, fun b hmem => ?_, fun b hmem => ?_⟩
      · exact Table.lookup_of_erase hlookup'
      · change none ∈ ((s.send pooled.agent .selfExit).agent b).held
        rw [held_send]
        exact Multiset.mem_add.mpr (.inl hmem)
      · change none ∈ ((s.send pooled.agent .selfExit).agent b).held at hmem
        rw [held_send] at hmem
        rcases Multiset.mem_add.mp hmem with hmem | hmem
        · exact .inl hmem
        · split at hmem
          · rename_i hb
            exact .inr ⟨id, pooled, hlookup, hb.symm⟩
          · cases hmem
    · exact fun _ => .refl s
  · exact fun _ => .refl s

theorem idle_fiveSecTick (s : Gamed) (now : Nat) : s.Idle (s.fiveSecTick now) := by
  unfold fiveSecTick
  -- over the keys, however many of them are left
  generalize s.clearPool.keys = ids
  induction ids generalizing s with
  | nil => exact .refl s
  | cons id ids ih => exact (idle_expire now s id).trans (ih _)

end Gamed

/-! ### What a step can do -/

/-- The steps of a run, as far as they concern sessions. -/
inductive Moves (s : Gamed) : Event → Gamed → Prop
  | idle {event : Event} {s' : Gamed} (h : s.Idle s') : Moves s event s'
  | login {fd : Fd} {id : Id} {s₁ : Gamed} (honline : s.onlineAccount id = none) (h : s.Idle s₁) :
    Moves s (.authenticated fd (some id)) (s₁.forwardAgent fd id none)
  | created {i : Nat} {c : Creation} (h : s.creating[i]? = some c) :
    Moves s (.created i) ({ s with
      creating := s.creating.eraseIdx i
      nextAgent := s.nextAgent + 1 }.openAgent c.fd c.id c.task s.nextAgent)
  | close {a : Handle} {id : Id} {fd : Fd} {outbox : List ToGamed}
    (h : (s.agent a).outbox = .cmdGamedClose id fd :: outbox) :
    Moves s (.handle a) ((s.popOutbox a outbox).cmdGamedClose a id fd)
  | marked {a : Handle} {fd : Fd} {task : Task} {s₁ : Gamed} (h : s.Idle s₁)
    (hcaller : .opening fd (some task) ∈ (s.agent a).callers) :
    Moves s (.handle a) { s₁ with recycling := s₁.recycling.modify task fun r => { r with logging := true } }
  | recycled {task : Task} {now : Nat} {r : Recycling} (hlookup : s.recycling.lookup task = some r)
    (hlogging : r.logging = true) :
    Moves s (.logged task now) ({ s with recycling := s.recycling.erase task }.recycle r.agent r.id r.fd now)
  | dropped {a : Handle} {fd : Fd} {task : Task} {r : Recycling} {s₁ : Gamed} (h : s.Idle s₁)
    (hcaller : .opening fd (some task) ∈ (s.agent a).callers) (hlookup : s.recycling.lookup task = some r) :
    Moves s (.handle a) ({ s₁ with recycling := s₁.recycling.erase task }.send r.agent (.closeDone r.fd))

theorem moves_opened {s : Gamed} {a : Handle} {fd : Fd} {task : Option Task} {outbox : List ToGamed}
    (h : (s.agent a).outbox = .answer (.opening fd task) true :: outbox) :
    Moves s (.handle a) ((s.popOutbox a outbox).opened a fd task) := by
  have hcaller : .opening fd task ∈ (s.agent a).callers := by
    rw [Agent.callers, Agent.total_pop_outbox _ h]
    exact Multiset.mem_add.mpr (.inl (Multiset.mem_singleton_self _))
  have hidle : s.Idle { s.popOutbox a outbox with
      pendingMsg := Function.update s.pendingMsg fd none
      gate := s.gate.forward fd a } :=
    (Gamed.idle_popOutbox h).trans (Gamed.idle_frame _ _ _ _ _ _)
  cases task with
  | none => exact .idle hidle
  | some task => exact .marked hidle hcaller

theorem moves_openFailed {s : Gamed} {a : Handle} {fd : Fd} {task : Option Task} {outbox : List ToGamed}
    (h : (s.agent a).outbox = .answer (.opening fd task) false :: outbox) :
    Moves s (.handle a) ((s.popOutbox a outbox).openFailed task) := by
  have hcaller : .opening fd task ∈ (s.agent a).callers := by
    rw [Agent.callers, Agent.total_pop_outbox _ h]
    exact Multiset.mem_add.mpr (.inl (Multiset.mem_singleton_self _))
  cases task with
  | none => exact .idle (Gamed.idle_popOutbox h)
  | some task =>
    simp only [Gamed.openFailed]
    split
    · rename_i r hlookup
      exact .dropped (Gamed.idle_popOutbox h) hcaller hlookup
    · exact .idle (Gamed.idle_popOutbox h)

theorem moves_authenticated {s s' : Gamed} {fd : Fd} {id : Option Id} (h : s.authenticated fd id = some s') :
    Moves s (.authenticated fd id) s' := by
  unfold Gamed.authenticated at h
  split at h
  · cases id with
    | none =>
      obtain rfl := Option.some.inj h
      exact .idle (Gamed.idle_frame s _ _ _ _ _)
    | some id =>
      obtain rfl := Option.some.inj h
      have haccept : s.Idle { s with
          authenticating := s.authenticating.erase fd
          accepted := Function.update s.accepted fd (some id) } := Gamed.idle_frame s _ _ _ _ _
      unfold Gamed.loginHandler
      split
      · exact .idle (haccept.trans (Gamed.idle_send _ _ rfl (by simp [Agent.callerContent])))
      · rename_i honline
        exact .login honline haccept
  · cases h

theorem moves_created {s s' : Gamed} {i : Nat} (h : s.created i = some s') : Moves s (.created i) s' := by
  unfold Gamed.created at h
  split at h
  · rename_i fd id task hc
    obtain rfl := Option.some.inj h
    exact .created hc
  · cases h

theorem moves_logged {s s' : Gamed} {task : Task} {now : Nat} (h : s.logged task now = some s') :
    Moves s (.logged task now) s' := by
  unfold Gamed.logged at h
  split at h
  · rename_i r hlookup
    split at h
    · rename_i hlogging
      obtain rfl := Option.some.inj h
      exact .recycled hlookup hlogging
    · cases h
  · cases h

theorem idle_of_refusedLogged {s s' : Gamed} {i : Nat} (h : s.refusedLogged i = some s') : s.Idle s' := by
  unfold Gamed.refusedLogged at h
  split at h
  · obtain rfl := Option.some.inj h
    exact Gamed.idle_frame s _ _ _ _ _
  · cases h

theorem idle_of_kicked {s s' : Gamed} {a : Handle} {i : Nat} (h : s.kicked a i = some s') : s.Idle s' := by
  unfold Gamed.kicked at h
  split at h
  · rename_i fd takeover hkick
    obtain rfl := Option.some.inj h
    exact Gamed.idle_kicked hkick _
  · cases h

theorem moves_answer {s : Gamed} {a : Handle} {caller : Caller} {ok : Bool} {outbox : List ToGamed}
    (h : (s.agent a).outbox = .answer caller ok :: outbox) :
    Moves s (.handle a) ((s.popOutbox a outbox).handle a (.answer caller ok)) := by
  have hpop := Gamed.idle_popOutbox h
  cases caller with
  | otherLogin takeover =>
    cases ok with
    | true => exact .idle (hpop.trans (Gamed.idle_send _ a rfl (by simp [Agent.callerContent])))
    | false => exact .idle hpop
  | kicking takeover =>
    cases ok with
    | true => exact .idle (hpop.trans (Gamed.idle_kicking _ takeover))
    | false => exact .idle hpop
  | opening fd task =>
    cases ok with
    | true => exact moves_opened h
    | false => exact moves_openFailed h
  | closing fd =>
    cases ok with
    | true => exact .idle (hpop.trans (Gamed.idle_gate _ _))
    | false => exact .idle hpop

theorem moves_handle {s : Gamed} {a : Handle} {msg : ToGamed} {outbox : List ToGamed}
    (h : (s.agent a).outbox = msg :: outbox) : Moves s (.handle a) ((s.popOutbox a outbox).handle a msg) := by
  cases msg with
  | cmdGamedClose id fd => exact .close h
  | cmdGamedKick userFd takeover =>
    exact .idle ((Gamed.idle_popOutbox h).trans (Gamed.idle_cmdGamedKick _ a userFd takeover))
  | answer caller ok => exact moves_answer h

theorem moves_of_step {s s' : Gamed} {event : Event} (h : step s event = some s') : Moves s event s' := by
  cases event with
  | connect fd addr =>
    simp only [step] at h
    split at h
    · obtain rfl := Option.some.inj h
      exact .idle (Gamed.idle_gate s _)
    · cases h
  | data fd msg =>
    obtain rfl := Option.some.inj h
    exact .idle (Gamed.idle_dispatchMsg s fd msg)
  | disconnect fd =>
    obtain ⟨gate, -, rfl⟩ := Option.map_eq_some_iff.mp h
    exact .idle ((Gamed.idle_gate s gate).trans (Gamed.idle_closeFd _ fd))
  | closed fd =>
    obtain ⟨gate, -, rfl⟩ := Option.map_eq_some_iff.mp h
    exact .idle ((Gamed.idle_gate s gate).trans (Gamed.idle_closeFd _ fd))
  | authenticated fd id => exact moves_authenticated h
  | created i => exact moves_created h
  | tick now =>
    obtain rfl := Option.some.inj h
    exact .idle (Gamed.idle_fiveSecTick s now)
  | refusedLogged i => exact .idle (idle_of_refusedLogged h)
  | kicked a i => exact .idle (idle_of_kicked h)
  | logged task now => exact moves_logged h
  | handle a =>
    simp only [step] at h
    split at h
    · rename_i msg outbox houtbox
      obtain rfl := Option.some.inj h
      exact moves_handle houtbox
    · cases h
  | receive a bad =>
    obtain ⟨x, hx, rfl⟩ := Option.map_eq_some_iff.mp h
    refine .idle (Gamed.idle_setAgent (Agent.held_receive_le hx) (fun fd task hmem => ?_) (Agent.leaving_receive hx))
    rw [← Agent.callers_receive hx]
    exact hmem
  | resume a i ok =>
    obtain ⟨x, hx, rfl⟩ := Option.map_eq_some_iff.mp h
    refine .idle (Gamed.idle_setAgent (Agent.held_resume_le hx) (fun fd task hmem => ?_) (Agent.leaving_resume hx))
    rw [← Agent.callers_resume hx]
    exact hmem

/-! ### Holding an agent -/

theorem lookup_erase_none {table : Table Task Recycling} {t task : Task} (h : table.lookup t = none) :
    (table.erase task).lookup t = none := by
  by_cases ht : t = task
  · subst ht
    exact AList.lookup_erase _ _
  · exact (AList.lookup_erase_ne ht).trans h

/-- An agent is held in one place at most. -/
structure Held (s : Gamed) : Prop where
  token : ∀ a, s.tokens a ≤ 1
  fresh : ∀ a, s.nextAgent ≤ a → s.tokens a = 0
  task : ∀ t, s.nextTask ≤ t → s.recycling.lookup t = none

theorem held_init : Held {} where
  token := fun _ => Nat.zero_le _
  fresh := fun _ _ => rfl
  task := fun _ _ => rfl

theorem Held.of_le {s s' : Gamed} (h : Held s) (htokens : ∀ b, s'.tokens b ≤ s.tokens b)
    (hagent : s'.nextAgent = s.nextAgent) (htask : s'.nextTask = s.nextTask)
    (hrecycling : ∀ t, s.recycling.lookup t = none → s'.recycling.lookup t = none) : Held s' where
  token := fun b => (htokens b).trans (h.token b)
  fresh := fun b hb => Nat.le_zero.mp ((htokens b).trans (h.fresh b (hagent ▸ hb)).le)
  task := fun t ht => hrecycling t (h.task t (htask ▸ ht))

theorem Held.idle {s s' : Gamed} (h : Held s) (hidle : s.Idle s') : Held s' :=
  h.of_le hidle.tokens hidle.nextAgent hidle.nextTask fun t ht => by rw [hidle.recycling]; exact ht

theorem nextAgent_recycle (s : Gamed) (agent : Handle) (id : Id) (fd : Fd) (now : Nat) :
    (s.recycle agent id fd now).nextAgent = s.nextAgent := by
  unfold Gamed.recycle
  cases s.clearPool.lookup id <;> rfl

theorem nextAgent_forwardAgent (s : Gamed) (fd : Fd) (id : Id) (task : Option Task) :
    (s.forwardAgent fd id task).nextAgent = s.nextAgent := by
  unfold Gamed.forwardAgent
  split <;> rfl

theorem nextTask_forwardAgent (s : Gamed) (fd : Fd) (id : Id) (task : Option Task) :
    (s.forwardAgent fd id task).nextTask = s.nextTask := by
  unfold Gamed.forwardAgent
  split <;> rfl

theorem recycling_forwardAgent (s : Gamed) (fd : Fd) (id : Id) (task : Option Task) :
    (s.forwardAgent fd id task).recycling = s.recycling := by
  unfold Gamed.forwardAgent
  split <;> rfl

/-- The session that is closed is the only thing the agent holds. -/
theorem tokens_popClose {s : Gamed} {a : Handle} {id : Id} {fd : Fd} {outbox : List ToGamed}
    (h : (s.agent a).outbox = .cmdGamedClose id fd :: outbox) (b : Handle) :
    s.tokens b = (s.popOutbox a outbox).tokens b + if b = a then 1 else 0 := by
  simp only [Gamed.tokens, Gamed.popOutbox, Gamed.agent_setAgent]
  change _ = _ + s.clearPool.count _ + s.recycling.count _ + _
  by_cases hb : b = a
  · subst hb
    rw [if_pos rfl, if_pos rfl, Agent.held_pop_outbox h, Multiset.card_add]
    simp only [Agent.heldContent, Multiset.card_singleton]
    omega
  · rw [if_neg hb, if_neg hb, add_zero]

theorem nextTask_cmdGamedClose (s : Gamed) (agent : Handle) (id : Id) (fd : Fd) :
    (s.cmdGamedClose agent id fd).nextTask = s.nextTask + 1 := by
  unfold Gamed.cmdGamedClose
  split
  · split
    · exact nextTask_forwardAgent _ _ _ _
    · rfl
  · rfl

theorem nextAgent_cmdGamedClose (s : Gamed) (agent : Handle) (id : Id) (fd : Fd) :
    (s.cmdGamedClose agent id fd).nextAgent = s.nextAgent := by
  unfold Gamed.cmdGamedClose
  split
  · split
    · exact nextAgent_forwardAgent _ _ _ _
    · rfl
  · rfl

theorem recycling_cmdGamedClose (s : Gamed) (agent : Handle) (id : Id) (fd : Fd) :
    ∃ r, (s.cmdGamedClose agent id fd).recycling = s.recycling.insert s.nextTask r := by
  unfold Gamed.cmdGamedClose
  split
  · split
    · exact ⟨_, recycling_forwardAgent _ _ _ _⟩
    · exact ⟨_, rfl⟩
  · exact ⟨_, rfl⟩

theorem Held.cmdGamedClose {s : Gamed} (h : Held s) {a : Handle} {id : Id} {fd : Fd} {outbox : List ToGamed}
    (houtbox : (s.agent a).outbox = .cmdGamedClose id fd :: outbox) :
    Held ((s.popOutbox a outbox).cmdGamedClose a id fd) := by
  have htask : (s.popOutbox a outbox).recycling.lookup (s.popOutbox a outbox).nextTask = none := h.task _ le_rfl
  have htokens : ∀ b, ((s.popOutbox a outbox).cmdGamedClose a id fd).tokens b = s.tokens b := by
    intro b
    rw [tokens_popClose houtbox b]
    exact Gamed.tokens_cmdGamedClose htask a id fd b
  have hagent := nextAgent_cmdGamedClose (s.popOutbox a outbox) a id fd
  refine ⟨fun b => (htokens b).trans_le (h.token b), fun b hb => (htokens b).trans (h.fresh b (hagent ▸ hb)), ?_⟩
  intro t ht
  obtain ⟨r, hr⟩ := recycling_cmdGamedClose (s.popOutbox a outbox) a id fd
  rw [nextTask_cmdGamedClose] at ht
  rw [hr]
  exact (AList.lookup_insert_ne (Nat.ne_of_gt ht)).trans (h.task t (Nat.le_of_lt ht))

theorem held_step {s s' : Gamed} {event : Event} (h : Held s) (hmoves : Moves s event s') : Held s' := by
  cases hmoves with
  | idle hidle => exact h.idle hidle
  | login honline hidle =>
    refine (h.idle hidle).of_le (fun b => (Gamed.tokens_forwardAgent _ _ _ _ b).le) (nextAgent_forwardAgent _ _ _ _)
      (nextTask_forwardAgent _ _ _ _) fun t ht => ?_
    rw [recycling_forwardAgent]
    exact ht
  | @created i c hc =>
    have htokens : ∀ b, ({ s with
        creating := s.creating.eraseIdx i
        nextAgent := s.nextAgent + 1 }.openAgent c.fd c.id c.task s.nextAgent).tokens b =
          s.tokens b + if b = s.nextAgent then 1 else 0 := fun b => Gamed.tokens_openAgent _ _ _ _ _ b
    refine ⟨fun b => ?_, fun b hb => ?_, h.task⟩
    · rw [htokens]
      split
      · rename_i hb
        rw [h.fresh b hb.ge]
      · exact h.token b
    · have hlt : s.nextAgent < b := hb
      rw [htokens, h.fresh b hlt.le, if_neg (Nat.ne_of_gt hlt)]
  | close houtbox => exact h.cmdGamedClose houtbox
  | @marked a fd task s₁ hidle hcaller =>
    refine (h.idle hidle).of_le (fun b => (Gamed.tokens_marked s₁ task b).le) rfl rfl fun t ht => ?_
    rw [Table.lookup_modify]
    split <;> simp [ht]
  | @recycled task now r hlookup hlogging =>
    have hsame := Gamed.same_recycle { s with recycling := s.recycling.erase task } r.agent r.id r.fd now
    refine h.of_le (fun b => (Gamed.tokens_recycled hlookup now b).le) (nextAgent_recycle _ _ _ _ _) hsame.nextTask
      fun t ht => ?_
    rw [hsame.recycling]
    exact lookup_erase_none ht
  | @dropped a fd task r s₁ hidle hcaller hlookup =>
    exact (h.idle hidle).of_le (fun b => Gamed.tokens_dropped_le (hidle.recycling ▸ hlookup) b) rfl rfl
      fun t ht => lookup_erase_none ht

/-! ### Sessions and accounts -/

/-- A handler of `cmd_gamed_close` for the account `id` that waits in `forward_agent` holds the agent that
`online_account` still names. -/
def Gamed.Recycles (s : Gamed) (id : Id) (t : Task) : Prop :=
  ∃ ref r, s.onlineAccount id = some ref ∧ s.recycling.lookup t = some r ∧ r.agent = (s.info ref).agent ∧
    r.id = id ∧ r.logging = false

structure Sessions (s : Gamed) : Prop where
  current : ∀ id ref, s.onlineAccount id = some ref → ref < s.nextInfo
  /-- The sessions of an account are with the agent that `online_account` names. -/
  session : ∀ a id, some id ∈ (s.agent a).held → ∃ ref, s.onlineAccount id = some ref ∧ (s.info ref).agent = a
  single : ∀ id, s.creating.countP (fun c => c.id = id) ≤ 1
  first : ∀ c ∈ s.creating, c.task = none → s.onlineAccount c.id = none
  again : ∀ c ∈ s.creating, ∀ t, c.task = some t → s.Recycles c.id t
  apart : ∀ c ∈ s.creating, ∀ t, c.task = some t → ∀ a fd, .opening fd (some t) ∉ (s.agent a).callers
  old : ∀ a fd t, .opening fd (some t) ∈ (s.agent a).callers → t < s.nextTask

theorem sessions_init : Sessions {} where
  current := fun _ _ h => by cases h
  session := fun _ _ h => by cases h
  single := fun _ => Nat.zero_le _
  first := fun _ h => by cases h
  again := fun _ h => by cases h
  apart := fun _ h => by cases h
  old := fun _ _ _ h => by cases h

theorem Sessions.same {s s' : Gamed} (h : Sessions s) (hsame : s.Same s') : Sessions s' where
  current := fun id ref honline => by
    rw [hsame.nextInfo]
    exact h.current id ref (hsame.onlineAccount ▸ honline)
  session := fun a id hheld => by
    obtain ⟨ref, honline, hagent⟩ := h.session a id (hsame.session a id hheld)
    exact ⟨ref, hsame.onlineAccount ▸ honline, (hsame.info ref).trans hagent⟩
  single := fun id => by
    rw [hsame.creating]
    exact h.single id
  first := fun c hc htask => by
    rw [hsame.onlineAccount]
    exact h.first c (hsame.creating ▸ hc) htask
  again := fun c hc t htask => by
    obtain ⟨ref, r, honline, hlookup, hagent, hid⟩ := h.again c (hsame.creating ▸ hc) t htask
    exact ⟨ref, r, hsame.onlineAccount ▸ honline, hsame.recycling ▸ hlookup, hagent.trans (hsame.info ref).symm, hid⟩
  apart := fun c hc t htask a fd hcaller =>
    h.apart c (hsame.creating ▸ hc) t htask a fd (hsame.opening a fd _ hcaller)
  old := fun a fd t hcaller => by
    rw [hsame.nextTask]
    exact h.old a fd t (hsame.opening a fd _ hcaller)

/-- An account without a session, for which nobody waits in `create_agent`. -/
structure Gamed.Vacant (s : Gamed) (id : Id) : Prop where
  session : ∀ a, some id ∉ (s.agent a).held
  creating : ∀ c ∈ s.creating, c.id ≠ id

theorem Gamed.mem_callers_openAgent {s : Gamed} {fd : Fd} {id : Id} {task : Option Task} {agent a : Handle}
    {caller : Caller} (hcaller : caller ∈ ((s.openAgent fd id task agent).agent a).callers) :
    caller ∈ (s.agent a).callers ∨ caller = .opening fd task := by
  rw [Gamed.openAgent, Gamed.callers_send] at hcaller
  rcases Multiset.mem_add.mp hcaller with hcaller | hcaller
  · exact .inl hcaller
  · split at hcaller
    · exact .inr (Multiset.mem_singleton.mp hcaller)
    · cases hcaller

theorem Sessions.openAgent {s : Gamed} (h : Sessions s) {fd : Fd} {id : Id} {task : Option Task} {agent : Handle}
    (hvacant : s.Vacant id)
    (htask : ∀ t, task = some t → t < s.nextTask ∧ ∀ c ∈ s.creating, c.task ≠ some t) :
    Sessions (s.openAgent fd id task agent) := by
  have honline : ∀ id', id' ≠ id → (s.openAgent fd id task agent).onlineAccount id' = s.onlineAccount id' :=
    fun id' hid => Function.update_of_ne hid _ _
  have hinfo : ∀ ref, ref < s.nextInfo → (s.openAgent fd id task agent).info ref = s.info ref :=
    fun ref href => Function.update_of_ne (Nat.ne_of_lt href) _ _
  refine { h with
    current := fun id' ref href => ?current
    session := fun a id' hheld => ?session
    first := fun c hc hnone => ?first
    again := fun c hc t ht => ?again
    apart := fun c hc t ht a fd' hcaller => ?apart
    old := fun a fd' t hcaller => ?old }
  case current =>
    change ref < s.nextInfo + 1
    rcases update_some_cases href with ⟨-, rfl⟩ | ⟨-, href⟩
    · exact Nat.lt_succ_self _
    · exact Nat.lt_succ_of_lt (h.current id' ref href)
  case session =>
    rw [Gamed.openAgent, Gamed.held_send] at hheld
    rcases Multiset.mem_add.mp hheld with hheld | hheld
    · obtain ⟨ref, href, hagent⟩ := h.session a id' hheld
      have hid : id' ≠ id := by
        rintro rfl
        exact hvacant.session a hheld
      exact ⟨ref, (honline id' hid).trans href, (congrArg Info.agent (hinfo ref (h.current id' ref href))).trans hagent⟩
    · split at hheld
      · rename_i ha
        obtain rfl : id' = id := Option.some.inj (Multiset.mem_singleton.mp hheld)
        have hnew : (s.openAgent fd id' task agent).info s.nextInfo = { agent } := Function.update_self _ _ _
        exact ⟨s.nextInfo, Function.update_self _ _ _, (congrArg Info.agent hnew).trans ha.symm⟩
      · cases hheld
  case first =>
    exact (honline c.id (hvacant.creating c hc)).trans (h.first c hc hnone)
  case again =>
    obtain ⟨ref, r, href, hlookup, hagent, hid⟩ := h.again c hc t ht
    exact ⟨ref, r, (honline c.id (hvacant.creating c hc)).trans href, hlookup,
      hagent.trans (congrArg Info.agent (hinfo ref (h.current c.id ref href))).symm, hid⟩
  case apart =>
    rcases Gamed.mem_callers_openAgent hcaller with hcaller | hcaller
    · exact h.apart c hc t ht a fd' hcaller
    · cases hcaller
      exact (htask t rfl).2 c hc ht
  case old =>
    rcases Gamed.mem_callers_openAgent hcaller with hcaller | hcaller
    · exact h.old a fd' t hcaller
    · cases hcaller
      exact (htask t rfl).1

theorem Sessions.forwardAgent {s : Gamed} (h : Sessions s) {fd : Fd} {id : Id} {task : Option Task}
    (hvacant : s.Vacant id) (hfirst : task = none → s.onlineAccount id = none)
    (hagain : ∀ t, task = some t → s.Recycles id t)
    (htask : ∀ t, task = some t → t < s.nextTask ∧ ∀ c ∈ s.creating, c.task ≠ some t)
    (hapart : ∀ t, task = some t → ∀ a fd, .opening fd (some t) ∉ (s.agent a).callers) :
    Sessions (s.forwardAgent fd id task) := by
  unfold Gamed.forwardAgent
  split
  · have hpool : Sessions { s with clearPool := s.clearPool.erase id } :=
      ⟨h.current, h.session, h.single, h.first, h.again, h.apart, h.old⟩
    exact hpool.openAgent ⟨hvacant.session, hvacant.creating⟩ htask
  · have hcases : ∀ {c : Creation}, c ∈ s.creating ++ [⟨fd, id, task⟩] → c ∈ s.creating ∨ c = ⟨fd, id, task⟩ := by
      intro c hc
      simpa using hc
    refine { h with
      single := fun id' => ?single
      first := fun c hc hnone => ?first
      again := fun c hc t ht => ?again
      apart := fun c hc t ht => ?apart }
    case single =>
      rw [List.countP_append, List.countP_singleton]
      by_cases hid : id = id'
      · subst hid
        have hzero : s.creating.countP (fun c => c.id = id) = 0 :=
          List.countP_eq_zero.mpr fun c hc => by simpa using hvacant.creating c hc
        simp [hzero]
      · simpa [hid] using h.single id'
    case first =>
      rcases hcases hc with hc | rfl
      · exact h.first c hc hnone
      · exact hfirst hnone
    case again =>
      rcases hcases hc with hc | rfl
      · exact h.again c hc t ht
      · exact hagain t ht
    case apart =>
      rcases hcases hc with hc | rfl
      · exact h.apart c hc t ht
      · exact hapart t ht

theorem Held.not_mem_of_lookup {s : Gamed} (h : Held s) {t : Task} {r : Recycling}
    (hlookup : s.recycling.lookup t = some r) (held : Option Id) : held ∉ (s.agent r.agent).held := by
  intro hheld
  have hcount := Table.count_erase_of_lookup (fun r' => decide (r.agent = r'.agent)) hlookup
  have hpos : 0 < Multiset.card (s.agent r.agent).held := Multiset.card_pos_iff_exists_mem.mpr ⟨held, hheld⟩
  have htoken := h.token r.agent
  simp only [Gamed.tokens, hcount, decide_true, if_true] at htoken
  omega

theorem Held.card_held_le {s : Gamed} (h : Held s) (a : Handle) : Multiset.card (s.agent a).held ≤ 1 := by
  have htoken := h.token a
  rw [Gamed.tokens] at htoken
  omega

theorem Held.held_of_pool {s : Gamed} (h : Held s) {id : Id} {pooled : Pooled}
    (hlookup : s.clearPool.lookup id = some pooled) : (s.agent pooled.agent).held = 0 := by
  have htoken := h.token pooled.agent
  have hcount := Table.count_erase_of_lookup (fun p => decide (pooled.agent = p.agent)) hlookup
  simp only [Gamed.tokens, hcount, decide_true, if_true] at htoken
  exact Multiset.card_eq_zero.mp (by omega)

theorem Held.held_of_recycling {s : Gamed} (h : Held s) {t : Task} {r : Recycling}
    (hlookup : s.recycling.lookup t = some r) : (s.agent r.agent).held = 0 :=
  Multiset.eq_zero_of_forall_notMem (h.not_mem_of_lookup hlookup)

theorem user_of_held {x : Agent} (h : x.held = 0) : x.user = none := by
  rcases Option.eq_none_or_eq_some x.user with hnone | ⟨u, hu⟩
  · exact hnone
  · have hmem := Agent.mem_held_of_user hu
    rw [h] at hmem
    cases hmem

theorem countP_eraseIdx {l : List Creation} {i : Nat} {c : Creation} (h : l[i]? = some c) (id : Id) :
    l.countP (fun c => c.id = id) = (l.eraseIdx i).countP (fun c => c.id = id) + if c.id = id then 1 else 0 := by
  obtain ⟨hi, rfl⟩ := List.getElem?_eq_some_iff.mp h
  rw [← (List.getElem_cons_eraseIdx_perm hi).countP_eq, List.countP_cons]
  simp

theorem Sessions.others_creating {s : Gamed} (h : Sessions s) {i : Nat} {c : Creation} (hc : s.creating[i]? = some c) :
    ∀ c' ∈ s.creating.eraseIdx i, c'.id ≠ c.id := by
  intro c' hc' hid
  have hpos : 0 < (s.creating.eraseIdx i).countP (fun c' => c'.id = c.id) :=
    List.countP_pos_iff.mpr ⟨c', hc', by simpa using hid⟩
  have hsingle := h.single c.id
  rw [countP_eraseIdx hc, if_pos rfl] at hsingle
  omega

theorem mem_eraseIdx_of_ne {l : List Creation} {i : Nat} {c c' : Creation} (hc : l[i]? = some c) (hc' : c' ∈ l)
    (hid : c'.id ≠ c.id) : c' ∈ l.eraseIdx i := by
  obtain ⟨hi, rfl⟩ := List.getElem?_eq_some_iff.mp hc
  rcases List.mem_cons.mp ((List.getElem_cons_eraseIdx_perm hi).mem_iff.mpr hc') with rfl | hmem
  · exact absurd rfl hid
  · exact hmem

theorem Sessions.eq_of_creating {s : Gamed} (h : Sessions s) {c c' : Creation} (hc : c ∈ s.creating)
    (hc' : c' ∈ s.creating) (hid : c.id = c'.id) : c = c' := by
  obtain ⟨i, hi, rfl⟩ := List.getElem_of_mem hc
  have hget : s.creating[i]? = some s.creating[i] := List.getElem?_eq_getElem hi
  rcases List.mem_cons.mp ((List.getElem_cons_eraseIdx_perm hi).mem_iff.mpr hc') with heq | hmem
  · exact heq.symm
  · exact absurd hid.symm (h.others_creating hget c' hmem)

/-- While a login waits in `create_agent` its account has no session. -/
theorem Sessions.not_mem_held_of_creating {s : Gamed} (hheld : Held s) (h : Sessions s) {c : Creation}
    (hc : c ∈ s.creating) (a : Handle) : some c.id ∉ (s.agent a).held := by
  intro hsession
  obtain ⟨ref, honline, hagent⟩ := h.session a c.id hsession
  cases htask : c.task with
  | none =>
    rw [h.first c hc htask] at honline
    cases honline
  | some t =>
    obtain ⟨ref', r, honline', hlookup, hagent', -⟩ := h.again c hc t htask
    obtain rfl : ref = ref' := Option.some.inj (honline.symm.trans honline')
    rw [← hagent, ← hagent'] at hsession
    exact hheld.not_mem_of_lookup hlookup _ hsession

theorem Sessions.created {s : Gamed} (hheld : Held s) (h : Sessions s) {i : Nat} {c : Creation}
    (hc : s.creating[i]? = some c) :
    Sessions ({ s with
      creating := s.creating.eraseIdx i
      nextAgent := s.nextAgent + 1 }.openAgent c.fd c.id c.task s.nextAgent) := by
  have hmem : c ∈ s.creating := List.mem_of_getElem? hc
  have hsub : ∀ c' ∈ s.creating.eraseIdx i, c' ∈ s.creating := fun c' hc' => List.eraseIdx_subset hc'
  have hrest : Sessions { s with creating := s.creating.eraseIdx i, nextAgent := s.nextAgent + 1 } := by
    refine ⟨h.current, h.session, fun id => ?_, fun c' hc' => h.first c' (hsub c' hc'),
      fun c' hc' => h.again c' (hsub c' hc'), fun c' hc' => h.apart c' (hsub c' hc'), h.old⟩
    have hsingle := h.single id
    rw [countP_eraseIdx hc] at hsingle
    exact (Nat.le_add_right _ _).trans hsingle
  have hothers := h.others_creating hc
  refine hrest.openAgent ⟨h.not_mem_held_of_creating hheld hmem, hothers⟩ fun t ht => ⟨?_, fun c' hc' ht' => ?_⟩
  · obtain ⟨-, r, -, hlookup, -⟩ := h.again c hmem t ht
    by_contra hlt
    rw [hheld.task t (Nat.le_of_not_lt hlt)] at hlookup
    cases hlookup
  · obtain ⟨-, r, -, hlookup, -, hid, -⟩ := h.again c hmem t ht
    obtain ⟨-, r', -, hlookup', -, hid', -⟩ := h.again c' (hsub c' hc') t ht'
    obtain rfl : r = r' := Option.some.inj (hlookup.symm.trans hlookup')
    exact hothers c' hc' (hid'.symm.trans hid)

/-- The agent whose close is handled is the one that `online_account` names, and the account is vacant then. -/
theorem Sessions.vacant_close {s : Gamed} (hheld : Held s) (h : Sessions s) {a : Handle} {id : Id} {fd : Fd}
    {outbox : List ToGamed} (houtbox : (s.agent a).outbox = .cmdGamedClose id fd :: outbox) :
    (∃ ref, s.onlineAccount id = some ref ∧ (s.info ref).agent = a) ∧ (s.popOutbox a outbox).Vacant id := by
  have hsession : some id ∈ (s.agent a).held := by
    rw [Agent.held_pop_outbox houtbox]
    exact Multiset.mem_add.mpr (.inl (Multiset.mem_singleton_self _))
  obtain ⟨ref, honline, hagent⟩ := h.session a id hsession
  refine ⟨⟨ref, honline, hagent⟩, fun b hb => ?_, fun c hc hid => ?_⟩
  · obtain ⟨ref', honline', hagent'⟩ := h.session b id ((Gamed.idle_popOutbox houtbox).session b id hb)
    obtain rfl : ref = ref' := Option.some.inj (honline.symm.trans honline')
    obtain rfl : b = a := hagent'.symm.trans hagent
    have htokens := tokens_popClose houtbox b
    have hpos : 0 < Multiset.card ((s.popOutbox b outbox).agent b).held :=
      Multiset.card_pos_iff_exists_mem.mpr ⟨_, hb⟩
    have htoken := hheld.token b
    rw [htokens, if_pos rfl, Gamed.tokens] at htoken
    omega
  · subst hid
    exact h.not_mem_held_of_creating hheld hc a hsession

theorem Sessions.suspendClose {s : Gamed} (hheld : Held s) (h : Sessions s) (r : Recycling) :
    Sessions (s.suspendClose r) := by
  refine ⟨h.current, h.session, h.single, h.first, fun c hc t ht => ?_, h.apart,
    fun b fd t hcaller => Nat.lt_succ_of_lt (h.old b fd t hcaller)⟩
  obtain ⟨ref, r', honline, hlookup, hrest⟩ := h.again c hc t ht
  have hne : t ≠ s.nextTask := by
    rintro rfl
    rw [hheld.task _ le_rfl] at hlookup
    cases hlookup
  exact ⟨ref, r', honline, (AList.lookup_insert_ne hne).trans hlookup, hrest⟩

theorem Sessions.clear {s : Gamed} (h : Sessions s) {id : Id} (hvacant : s.Vacant id) :
    Sessions { s with onlineAccount := Function.update s.onlineAccount id none } := by
  have hstay : ∀ id', id' ≠ id → Function.update s.onlineAccount id none id' = s.onlineAccount id' :=
    fun id' hid => Function.update_of_ne hid _ _
  refine { h with
    current := fun id' ref href => ?current
    session := fun b id' hsession => ?session
    first := fun c hc hnone => ?first
    again := fun c hc t ht => ?again }
  case current =>
    by_cases hid : id' = id
    · subst hid
      simp at href
    · exact h.current id' ref ((hstay id' hid).symm.trans href)
  case session =>
    obtain ⟨ref, href, hagent⟩ := h.session b id' hsession
    have hid : id' ≠ id := by
      rintro rfl
      exact hvacant.session b hsession
    exact ⟨ref, (hstay id' hid).trans href, hagent⟩
  case first =>
    exact (hstay _ (hvacant.creating c hc)).trans (h.first c hc hnone)
  case again =>
    obtain ⟨ref, r, href, hrest⟩ := h.again c hc t ht
    exact ⟨ref, r, (hstay _ (hvacant.creating c hc)).trans href, hrest⟩

theorem Sessions.cmdGamedClose {s : Gamed} (hheld : Held s) (h : Sessions s) {a : Handle} {id : Id} {fd : Fd}
    {outbox : List ToGamed} (houtbox : (s.agent a).outbox = .cmdGamedClose id fd :: outbox) :
    Sessions ((s.popOutbox a outbox).cmdGamedClose a id fd) := by
  obtain ⟨⟨ref, honline, hagent⟩, hvacant⟩ := h.vacant_close hheld houtbox
  have hpop : Sessions (s.popOutbox a outbox) := h.same (Gamed.idle_popOutbox houtbox).toSame
  have hheldPop : Held (s.popOutbox a outbox) := hheld.idle (Gamed.idle_popOutbox houtbox)
  have hcurrent : (s.popOutbox a outbox).onlineAccount id = some ref := honline
  unfold Gamed.cmdGamedClose
  rw [hcurrent]
  dsimp only
  split
  · rename_i kick hkick
    refine (hpop.suspendClose hheldPop ⟨a, id, fd, false⟩).forwardAgent ⟨hvacant.session, hvacant.creating⟩
      (fun hnone => by cases hnone) ?_ ?_ ?_
    · rintro _ ⟨⟩
      exact ⟨ref, ⟨a, id, fd, false⟩, honline, AList.lookup_insert _, hagent.symm, rfl, rfl⟩
    · rintro _ ⟨⟩
      refine ⟨Nat.lt_succ_self _, fun c hc ht => ?_⟩
      obtain ⟨-, r, -, hlookup, -⟩ := hpop.again c hc _ ht
      rw [hheldPop.task _ le_rfl] at hlookup
      cases hlookup
    · rintro _ ⟨⟩ b fd' hcaller
      exact absurd (hpop.old b fd' _ hcaller) (Nat.lt_irrefl _)
  · refine Sessions.suspendClose ?_ (hpop.clear hvacant) _
    exact hheldPop.of_le (fun _ => le_rfl) rfl rfl fun _ ht => ht

theorem Sessions.of_recycling {s : Gamed} (h : Sessions s) {table : Table Task Recycling}
    (htable : ∀ c ∈ s.creating, ∀ t, c.task = some t → table.lookup t = s.recycling.lookup t) :
    Sessions { s with recycling := table } := by
  refine ⟨h.current, h.session, h.single, h.first, fun c hc t ht => ?_, h.apart, h.old⟩
  obtain ⟨ref, r, honline, hlookup, hrest⟩ := h.again c hc t ht
  exact ⟨ref, r, honline, (htable c hc t ht).trans hlookup, hrest⟩

theorem Sessions.ne_task {s s₁ : Gamed} (h : Sessions s) (hidle : s.Idle s₁) {a : Handle} {fd : Fd} {task : Task}
    (hcaller : .opening fd (some task) ∈ (s.agent a).callers) {c : Creation} (hc : c ∈ s₁.creating) {t : Task}
    (ht : c.task = some t) : t ≠ task := by
  rintro rfl
  exact h.apart c (hidle.creating ▸ hc) t ht a fd hcaller

/-! ### Runs -/

/-- The condition on the state before an event: no login for an account finds `online_account` empty while another one
for it waits in `create_agent`. -/
def OneForward (s : Gamed) : Event → Prop
  | .authenticated _ (some id) => s.onlineAccount id = none → ∀ c ∈ s.creating, c.id ≠ id
  | _ => True

instance decidableOneForward (s : Gamed) : (event : Event) → Decidable (OneForward s event)
  | .authenticated _ (some id) =>
    inferInstanceAs (Decidable (s.onlineAccount id = none → ∀ c ∈ s.creating, c.id ≠ id))
  | .authenticated _ none => isTrue trivial
  | .connect _ _ => isTrue trivial
  | .data _ _ => isTrue trivial
  | .disconnect _ => isTrue trivial
  | .closed _ => isTrue trivial
  | .created _ => isTrue trivial
  | .tick _ => isTrue trivial
  | .refusedLogged _ => isTrue trivial
  | .kicked _ _ => isTrue trivial
  | .logged _ _ => isTrue trivial
  | .handle _ => isTrue trivial
  | .receive _ _ => isTrue trivial
  | .resume _ _ _ => isTrue trivial

theorem sessions_step {s s' : Gamed} {event : Event} (hheld : Held s) (h : Sessions s) (hok : OneForward s event)
    (hmoves : Moves s event s') : Sessions s' := by
  cases hmoves with
  | idle hidle => exact h.same hidle.toSame
  | @login fd id s₁ honline hidle =>
    have h₁ := h.same hidle.toSame
    have honline₁ : s₁.onlineAccount id = none := hidle.onlineAccount ▸ honline
    refine h₁.forwardAgent ⟨fun a hsession => ?_, ?_⟩ (fun _ => honline₁) ?_ ?_ ?_
    · obtain ⟨ref, href, -⟩ := h₁.session a id hsession
      rw [honline₁] at href
      cases href
    · rw [hidle.creating]
      exact hok honline
    · rintro _ ⟨⟩
    · rintro _ ⟨⟩
    · rintro _ ⟨⟩
  | created hc => exact h.created hheld hc
  | close houtbox => exact h.cmdGamedClose hheld houtbox
  | @marked a fd task s₁ hidle hcaller =>
    refine (h.same hidle.toSame).of_recycling fun c hc t ht => ?_
    rw [Table.lookup_modify, if_neg (h.ne_task hidle hcaller hc ht)]
  | @recycled task now r hlookup hlogging =>
    have herase : Sessions { s with recycling := s.recycling.erase task } := by
      refine h.of_recycling fun c hc t ht => AList.lookup_erase_ne ?_
      rintro rfl
      obtain ⟨-, r', -, hlookup', -, -, hlogging'⟩ := h.again c hc t ht
      obtain rfl : r = r' := Option.some.inj (hlookup.symm.trans hlookup')
      cases hlogging.symm.trans hlogging'
    exact herase.same (Gamed.same_recycle _ _ _ _ _)
  | @dropped a fd task r s₁ hidle hcaller hlookup =>
    have herase : Sessions { s₁ with recycling := s₁.recycling.erase task } :=
      (h.same hidle.toSame).of_recycling fun c hc t ht => AList.lookup_erase_ne (h.ne_task hidle hcaller hc ht)
    exact herase.same (Gamed.same_send _ _ (by simp [Agent.heldContent]) (by simp [Agent.callerContent]))

def OneAgent (s : Gamed) : Prop := Held s ∧ Sessions s

theorem oneAgent_step (s : Gamed) (event : Event) (s' : Gamed) (h : OneAgent s) (hok : OneForward s event)
    (hstep : step s event = some s') : OneAgent s' :=
  ⟨held_step h.1 (moves_of_step hstep), sessions_step h.1 h.2 hok (moves_of_step hstep)⟩

/-- The agent has a user of the account. -/
def Gamed.OpenFor (s : Gamed) (a : Handle) (id : Id) : Prop :=
  ∃ user, (s.agent a).user = some user ∧ user.account = id

theorem Gamed.OpenFor.mem_held {s : Gamed} {a : Handle} {id : Id} (h : s.OpenFor a id) : some id ∈ (s.agent a).held := by
  obtain ⟨user, huser, rfl⟩ := h
  simp [Agent.held, huser]

/-- **One agent.** In every state of a run in which no login for an account finds `online_account` empty while another
one for it waits in `create_agent`, at most one agent is open for an account, and none but the one that
`online_account` names if it names one. -/
theorem openFor_unique (maxclient : Int) (events : List Event) (s : Gamed)
    (hok : Along step OneForward { gate := { maxclient } } events)
    (hrun : run step { gate := { maxclient } } events = some s) (id : Id) :
    (∀ a b, s.OpenFor a id → s.OpenFor b id → a = b) ∧
      ∀ ref, s.onlineAccount id = some ref → ∀ a, s.OpenFor a id → a = (s.info ref).agent := by
  have hinit : OneAgent { gate := { maxclient } } :=
    ⟨held_init.idle (Gamed.idle_gate _ _), sessions_init.same (Gamed.idle_gate _ _).toSame⟩
  obtain ⟨-, hsessions⟩ := run_invariant oneAgent_step hinit hok hrun
  refine ⟨fun a b ha hb => ?_, fun ref href a ha => ?_⟩
  · obtain ⟨ref, honline, rfl⟩ := hsessions.session a id ha.mem_held
    obtain ⟨ref', honline', rfl⟩ := hsessions.session b id hb.mem_held
    rw [Option.some.inj (honline.symm.trans honline')]
  · obtain ⟨ref', honline, rfl⟩ := hsessions.session a id ha.mem_held
    rw [Option.some.inj (honline.symm.trans href)]

/-- The client `fd` connects and is accepted for the account `id`. -/
def accepts (fd : Fd) (id : Id) : List Event :=
  [.connect fd "127.0.0.1", .data fd "login", .authenticated fd (some id)]

/-- An agent handles `cmd_agent_open`, and `gamed` its answer. -/
def opens (a : Handle) : List Event := [.receive a false, .resume a 0 true, .resume a 0 true, .handle a]

/-- The client 2 takes over the account of the client 1: the first agent is kicked and closes, and a second one is
opened. -/
def takesOver : List Event :=
  accepts 1 7 ++ [.created 0] ++ opens 0 ++ accepts 2 7 ++
    [.receive 0 false, .handle 0, .receive 0 false, .resume 0 0 true, .resume 0 0 true, .handle 0, .kicked 0 0,
      .receive 0 false, .handle 0, .closed 1, .receive 0 false, .resume 0 0 true, .resume 0 0 true, .handle 0,
      .created 0] ++
    opens 1 ++ [.logged 0 0, .receive 0 false, .handle 0]

theorem openFor_unique_takes_over :
    ∃ s, run step { gate := { maxclient := 64 } } takesOver = some s ∧ s.OpenFor 1 7 ∧ ∀ b, s.OpenFor b 7 → 1 = b := by
  refine ⟨_, rfl, ⟨⟨2, 7⟩, rfl, rfl⟩, fun b => ?_⟩
  exact (openFor_unique 64 takesOver _ (by decide) rfl 7).1 1 b ⟨⟨2, 7⟩, rfl, rfl⟩

/-- Two clients are accepted for an account before the agent of the first one is there. -/
def sideBySide : List Event :=
  accepts 1 7 ++ accepts 2 7 ++
    [.created 0, .created 0, .receive 0 false, .receive 1 false, .resume 0 0 true, .resume 1 0 true]

theorem not_openFor_unique_side_by_side :
    ¬ ∀ (maxclient : Int) (events : List Event) (s : Gamed),
      run step { gate := { maxclient } } events = some s → ∀ id, (∀ a b, s.OpenFor a id → s.OpenFor b id → a = b) ∧
        ∀ ref, s.onlineAccount id = some ref → ∀ a, s.OpenFor a id → a = (s.info ref).agent := by
  intro hall
  have hunique := (hall 64 sideBySide _ rfl 7).1 0 1 ⟨⟨1, 7⟩, rfl, rfl⟩ ⟨⟨2, 7⟩, rfl, rfl⟩
  cases hunique

end SkynetServer.Game
