import SkynetServer.Game.OneAgent

/-!
# The agents of the clear pool

An agent is opened for one account as long as it lives: `clear_pool` hands it out again only for the account under which
it was put there, and that is the account of its last session. Here nothing is assumed about the logins: two of them may
open two agents for one account, and each of these still has its account. An agent that is told to leave was in
`clear_pool` then. It is held nowhere else, so nobody opens it again, and `online_account` does not name it: it names an
agent that is being recycled only as long as `forward_agent` waits in `create_agent` for the agent that replaces it.
-/

namespace SkynetServer.Game

open Lib

/-! ### The handlers that wait in `forward_agent` -/

/-- A handler of `cmd_gamed_close` that waits in `create_agent` is there once, and waits neither for an agent nor for the
logger. -/
structure Tasks (s : Gamed) : Prop where
  nodup : (s.creating.filterMap Creation.task).Nodup
  pending : ∀ c ∈ s.creating, ∀ t, c.task = some t → ∃ r, s.recycling.lookup t = some r ∧ r.logging = false
  apart : ∀ c ∈ s.creating, ∀ t, c.task = some t → ∀ a fd, .opening fd (some t) ∉ (s.agent a).callers
  old : ∀ a fd t, .opening fd (some t) ∈ (s.agent a).callers → t < s.nextTask

theorem tasks_init : Tasks {} where
  nodup := List.nodup_nil
  pending := fun _ h => by cases h
  apart := fun _ h => by cases h
  old := fun _ _ _ h => by cases h

namespace Tasks

variable {s : Gamed}

theorem same (h : Tasks s) {s' : Gamed} (hsame : s.Same s') : Tasks s' where
  nodup := hsame.creating ▸ h.nodup
  pending := fun c hc t ht => by
    rw [hsame.recycling]
    exact h.pending c (hsame.creating ▸ hc) t ht
  apart := fun c hc t ht a fd hcaller => h.apart c (hsame.creating ▸ hc) t ht a fd (hsame.opening a fd _ hcaller)
  old := fun a fd t hcaller => hsame.nextTask ▸ h.old a fd t (hsame.opening a fd _ hcaller)

theorem of_recycling (h : Tasks s) {table : Table Task Recycling}
    (htable : ∀ c ∈ s.creating, ∀ t, c.task = some t → table.lookup t = s.recycling.lookup t) :
    Tasks { s with recycling := table } :=
  { h with
    pending := fun c hc t ht => by
      obtain ⟨r, hlookup, hlogging⟩ := h.pending c hc t ht
      exact ⟨r, (htable c hc t ht).trans hlookup, hlogging⟩ }

theorem ne_task (h : Tasks s) {a : Handle} {fd : Fd} {task : Task} (hcaller : .opening fd (some task) ∈ (s.agent a).callers)
    {c : Creation} (hc : c ∈ s.creating) {t : Task} (ht : c.task = some t) : t ≠ task := by
  rintro rfl
  exact h.apart c hc t ht a fd hcaller

theorem openAgent (h : Tasks s) {fd : Fd} {id : Id} {task : Option Task} {agent : Handle}
    (htask : ∀ t, task = some t → t < s.nextTask ∧ ∀ c ∈ s.creating, c.task ≠ some t) :
    Tasks (s.openAgent fd id task agent) := by
  refine ⟨h.nodup, h.pending, fun c hc t ht a fd' hcaller => ?_, fun a fd' t hcaller => ?_⟩
  · rcases Gamed.mem_callers_openAgent hcaller with hcaller | hcaller
    · exact h.apart c hc t ht a fd' hcaller
    · cases hcaller
      exact (htask t rfl).2 c hc ht
  · rcases Gamed.mem_callers_openAgent hcaller with hcaller | hcaller
    · exact h.old a fd' t hcaller
    · cases hcaller
      exact (htask t rfl).1

theorem forwardAgent (h : Tasks s) {fd : Fd} {id : Id} {task : Option Task}
    (htask : ∀ t, task = some t → t < s.nextTask ∧ (∀ c ∈ s.creating, c.task ≠ some t) ∧
      (∃ r, s.recycling.lookup t = some r ∧ r.logging = false) ∧ ∀ a fd, .opening fd (some t) ∉ (s.agent a).callers) :
    Tasks (s.forwardAgent fd id task) := by
  unfold Gamed.forwardAgent
  split
  · have hpool : Tasks { s with clearPool := s.clearPool.erase id } := { h with }
    exact hpool.openAgent fun t ht => ⟨(htask t ht).1, (htask t ht).2.1⟩
  · refine ⟨?_, fun c hc t ht => ?_, fun c hc t ht => ?_, h.old⟩
    · rw [List.filterMap_append]
      cases task with
      | none => simpa using h.nodup
      | some t =>
        refine List.nodup_append'.mpr ⟨h.nodup, List.nodup_singleton t, List.disjoint_singleton.mpr fun hmem => ?_⟩
        obtain ⟨c, hc, ht⟩ := List.mem_filterMap.mp hmem
        exact (htask t rfl).2.1 c hc ht
    · rcases List.mem_append.mp hc with hc | hc
      · exact h.pending c hc t ht
      · cases List.mem_singleton.mp hc
        exact (htask t ht).2.2.1
    · rcases List.mem_append.mp hc with hc | hc
      · exact h.apart c hc t ht
      · cases List.mem_singleton.mp hc
        exact (htask t ht).2.2.2

theorem created (h : Tasks s) (hheld : Held s) {i : Nat} {c : Creation} (hc : s.creating[i]? = some c) :
    Tasks ({ s with
      creating := s.creating.eraseIdx i
      nextAgent := s.nextAgent + 1 }.openAgent c.fd c.id c.task s.nextAgent) := by
  have hsub : ∀ c' ∈ s.creating.eraseIdx i, c' ∈ s.creating := fun c' hc' => List.eraseIdx_subset hc'
  have hperm : (c :: s.creating.eraseIdx i).Perm s.creating := by
    obtain ⟨hi, rfl⟩ := List.getElem?_eq_some_iff.mp hc
    exact List.getElem_cons_eraseIdx_perm hi
  have hnodup : ((c :: s.creating.eraseIdx i).filterMap Creation.task).Nodup :=
    (hperm.filterMap Creation.task).nodup_iff.mpr h.nodup
  have hrest : Tasks { s with creating := s.creating.eraseIdx i, nextAgent := s.nextAgent + 1 } := by
    refine ⟨?_, fun c' hc' => h.pending c' (hsub c' hc'), fun c' hc' => h.apart c' (hsub c' hc'), h.old⟩
    rw [List.filterMap_cons] at hnodup
    split at hnodup
    · exact hnodup
    · exact (List.nodup_cons.mp hnodup).2
  refine hrest.openAgent fun t ht => ⟨?_, fun c' hc' ht' => ?_⟩
  · obtain ⟨r, hlookup, -⟩ := h.pending c (List.mem_of_getElem? hc) t ht
    by_contra hge
    rw [hheld.task t (Nat.le_of_not_lt hge)] at hlookup
    cases hlookup
  · rw [List.filterMap_cons_some ht] at hnodup
    exact (List.nodup_cons.mp hnodup).1 (List.mem_filterMap.mpr ⟨c', hc', ht'⟩)

theorem suspendClose (h : Tasks s) (hheld : Held s) (r : Recycling) : Tasks (s.suspendClose r) := by
  refine ⟨h.nodup, fun c hc t ht => ?_, h.apart, fun a fd t hcaller => Nat.lt_succ_of_lt (h.old a fd t hcaller)⟩
  obtain ⟨r', hlookup, hlogging⟩ := h.pending c hc t ht
  refine ⟨r', (AList.lookup_insert_ne ?_).trans hlookup, hlogging⟩
  rintro rfl
  cases (hheld.task _ le_rfl).symm.trans hlookup

theorem cmdGamedClose (h : Tasks s) (hheld : Held s) (a : Handle) (id : Id) (fd : Fd) :
    Tasks (s.cmdGamedClose a id fd) := by
  unfold Gamed.cmdGamedClose
  split
  · split
    · refine (h.suspendClose hheld _).forwardAgent ?_
      rintro _ ⟨⟩
      refine ⟨Nat.lt_succ_self _, fun c hc ht => ?_, ⟨_, AList.lookup_insert _, rfl⟩, fun b fd' hcaller => ?_⟩
      · obtain ⟨r, hlookup, -⟩ := h.pending c hc _ ht
        cases (hheld.task _ le_rfl).symm.trans hlookup
      · exact absurd (h.old b fd' _ hcaller) (Nat.lt_irrefl _)
    · have hclear : Tasks { s with onlineAccount := Function.update s.onlineAccount id none } := { h with }
      exact hclear.suspendClose (hheld.of_le (fun _ => le_rfl) rfl rfl fun _ ht => ht) _
  · exact h.suspendClose hheld _

theorem step (h : Tasks s) (hheld : Held s) {event : Event} {s' : Gamed} (hmoves : Moves s event s') : Tasks s' := by
  cases hmoves with
  | idle hidle => exact h.same hidle.toSame
  | login honline hidle =>
    refine (h.same hidle.toSame).forwardAgent ?_
    rintro _ ⟨⟩
  | created hc => exact h.created hheld hc
  | close houtbox =>
    have hidle := Gamed.idle_popOutbox houtbox
    exact (h.same hidle.toSame).cmdGamedClose (hheld.idle hidle) _ _ _
  | marked hidle hcaller =>
    refine (h.same hidle.toSame).of_recycling fun c hc t ht => ?_
    rw [Table.lookup_modify, if_neg (h.ne_task hcaller (hidle.creating ▸ hc) ht)]
  | @recycled task now r hlookup hlogging =>
    have herase : Tasks { s with recycling := s.recycling.erase task } := by
      refine h.of_recycling fun c hc t ht => AList.lookup_erase_ne ?_
      rintro rfl
      obtain ⟨r', hlookup', hlogging'⟩ := h.pending c hc t ht
      obtain rfl := Option.some.inj (hlookup.symm.trans hlookup')
      cases hlogging.symm.trans hlogging'
    exact herase.same (Gamed.same_recycle _ _ _ _ _)
  | @dropped a fd task r s₁ hidle hcaller hlookup =>
    have herase : Tasks { s₁ with recycling := s₁.recycling.erase task } :=
      (h.same hidle.toSame).of_recycling fun c hc t ht =>
        AList.lookup_erase_ne (h.ne_task hcaller (hidle.creating ▸ hc) ht)
    exact herase.same (Gamed.same_send _ _ (by simp [Agent.heldContent]) (by simp [Agent.callerContent]))

end Tasks

/-! ### The account of an agent -/

/-- Every agent that is held has the account `home`, and so has the one that `online_account` names for an account. -/
structure Bound (home : Handle → Id) (s : Gamed) : Prop where
  session : ∀ a id, some id ∈ (s.agent a).held → home a = id
  pool : ∀ id pooled, s.clearPool.lookup id = some pooled → home pooled.agent = id
  recycling : ∀ t r, s.recycling.lookup t = some r → home r.agent = r.id
  online : ∀ id ref, s.onlineAccount id = some ref → home (s.info ref).agent = id
  current : ∀ id ref, s.onlineAccount id = some ref → ref < s.nextInfo ∧ (s.info ref).agent < s.nextAgent

theorem bound_init (home : Handle → Id) : Bound home {} where
  session := fun _ _ h => by cases h
  pool := fun _ _ h => by cases h
  recycling := fun _ _ h => by cases h
  online := fun _ _ h => by cases h
  current := fun _ _ h => by cases h

theorem Held.lt_nextAgent {s : Gamed} (h : Held s) {a : Handle} (htokens : s.tokens a ≠ 0) : a < s.nextAgent := by
  by_contra hge
  exact htokens (h.fresh a (Nat.le_of_not_lt hge))

theorem tokens_of_held {s : Gamed} {a : Handle} {held : Option Id} (h : held ∈ (s.agent a).held) : s.tokens a ≠ 0 := by
  have hpos : 0 < Multiset.card (s.agent a).held := Multiset.card_pos_iff_exists_mem.mpr ⟨held, h⟩
  rw [Gamed.tokens]
  omega

theorem tokens_of_pool {s : Gamed} {id : Id} {pooled : Pooled} (h : s.clearPool.lookup id = some pooled) :
    s.tokens pooled.agent ≠ 0 := by
  have hcount := Table.count_erase_of_lookup (fun p => decide (pooled.agent = p.agent)) h
  simp only [Gamed.tokens, hcount, decide_true, if_true]
  omega

theorem tokens_of_recycling {s : Gamed} {t : Task} {r : Recycling} (h : s.recycling.lookup t = some r) :
    s.tokens r.agent ≠ 0 := by
  have hcount := Table.count_erase_of_lookup (fun r' => decide (r.agent = r'.agent)) h
  simp only [Gamed.tokens, hcount, decide_true, if_true]
  omega

theorem Held.suspendClose {s : Gamed} (h : Held s) {a : Handle} {id : Id} {fd : Fd} {outbox : List ToGamed}
    (houtbox : (s.agent a).outbox = .cmdGamedClose id fd :: outbox) {r : Recycling} (hr : r.agent = a) :
    Held ((s.popOutbox a outbox).suspendClose r) := by
  have htask : (s.popOutbox a outbox).recycling.lookup (s.popOutbox a outbox).nextTask = none := h.task _ le_rfl
  have htokens : ∀ b, ((s.popOutbox a outbox).suspendClose r).tokens b = s.tokens b := by
    intro b
    rw [tokens_popClose houtbox b, Gamed.tokens_suspendClose htask, hr]
  refine ⟨fun b => (htokens b).trans_le (h.token b), fun b hb => (htokens b).trans (h.fresh b hb), fun t ht => ?_⟩
  exact (AList.lookup_insert_ne (Nat.ne_of_gt ht)).trans (h.task t (Nat.le_of_lt ht))

theorem clearPool_recycle (s : Gamed) (agent : Handle) (id : Id) (fd : Fd) (now : Nat) :
    (s.recycle agent id fd now).clearPool = s.clearPool.insert id ⟨agent, now + Gamed.expireCleanTime⟩ := by
  unfold Gamed.recycle
  cases s.clearPool.lookup id <;> rfl

/-- Who is told to leave at the end of `cmd_gamed_close`. -/
theorem leaving_recycle {s : Gamed} {agent : Handle} {id : Id} {fd : Fd} {now : Nat} {b : Handle} :
    none ∈ ((s.recycle agent id fd now).agent b).held ↔
      none ∈ (s.agent b).held ∨ ∃ pooled, s.clearPool.lookup id = some pooled ∧ pooled.agent = b := by
  have hdone : ∀ s' : Gamed, ((s'.send agent (.closeDone fd)).agent b).held = (s'.agent b).held := by
    intro s'
    rw [Gamed.held_send]
    split <;> exact add_zero _
  unfold Gamed.recycle
  rw [hdone]
  cases hlookup : s.clearPool.lookup id with
  | none => simp
  | some pooled =>
    change none ∈ ((s.send pooled.agent .selfExit).agent b).held ↔ _
    rw [Gamed.held_send, Multiset.mem_add]
    refine or_congr_right ⟨fun hmem => ?_, ?_⟩
    · split at hmem
      · rename_i hb
        exact ⟨pooled, rfl, hb.symm⟩
      · cases hmem
    · rintro ⟨pooled', hpooled, hb⟩
      obtain rfl := Option.some.inj hpooled
      rw [if_pos hb.symm]
      exact Multiset.mem_singleton_self _

namespace Bound

variable {s : Gamed} {home : Handle → Id}

theorem same (h : Bound home s) {s' : Gamed} (hsame : s.Same s') (hagent : s'.nextAgent = s.nextAgent)
    (hpool : ∀ id pooled, s'.clearPool.lookup id = some pooled → home pooled.agent = id) : Bound home s' where
  session := fun a id hmem => h.session a id (hsame.session a id hmem)
  pool := hpool
  recycling := hsame.recycling ▸ h.recycling
  online := fun id ref href => by
    rw [hsame.info]
    exact h.online id ref (hsame.onlineAccount ▸ href)
  current := fun id ref href => by
    rw [hsame.info, hsame.nextInfo, hagent]
    exact h.current id ref (hsame.onlineAccount ▸ href)

theorem idle (h : Bound home s) {s' : Gamed} (hidle : s.Idle s') : Bound home s' :=
  h.same hidle.toSame hidle.nextAgent fun id pooled hlookup => h.pool id pooled (hidle.pool id pooled hlookup)

theorem openAgent (h : Bound home s) {fd : Fd} {id : Id} {task : Option Task} {agent : Handle} (hhome : home agent = id)
    (hlt : agent < s.nextAgent) : Bound home (s.openAgent fd id task agent) := by
  have hinfo : ∀ id' ref, s.onlineAccount id' = some ref → (s.openAgent fd id task agent).info ref = s.info ref :=
    fun id' ref href => Function.update_of_ne (Nat.ne_of_lt (h.current id' ref href).1) _ _
  have hnew : (s.openAgent fd id task agent).info s.nextInfo = { agent } := Function.update_self _ _ _
  refine ⟨fun a id' hmem => ?_, h.pool, h.recycling, fun id' ref href => ?_, fun id' ref href => ?_⟩
  · rw [Gamed.openAgent, Gamed.held_send] at hmem
    rcases Multiset.mem_add.mp hmem with hmem | hmem
    · exact h.session a id' hmem
    · split at hmem
      · rename_i ha
        rw [ha, hhome]
        exact (Option.some.inj (Multiset.mem_singleton.mp hmem)).symm
      · cases hmem
  · rcases update_some_cases href with ⟨rfl, rfl⟩ | ⟨-, href⟩
    · rw [hnew]
      exact hhome
    · rw [hinfo id' ref href]
      exact h.online id' ref href
  · change ref < s.nextInfo + 1 ∧ ((s.openAgent fd id task agent).info ref).agent < s.nextAgent
    rcases update_some_cases href with ⟨-, rfl⟩ | ⟨-, href⟩
    · rw [hnew]
      exact ⟨Nat.lt_succ_self _, hlt⟩
    · rw [hinfo id' ref href]
      exact ⟨Nat.lt_succ_of_lt (h.current id' ref href).1, (h.current id' ref href).2⟩

theorem forwardAgent (h : Bound home s) (hheld : Held s) (fd : Fd) (id : Id) (task : Option Task) :
    Bound home (s.forwardAgent fd id task) := by
  unfold Gamed.forwardAgent
  split
  · rename_i pooled hlookup
    have hpool : Bound home { s with clearPool := s.clearPool.erase id } :=
      { h with
        pool := fun id' pooled' hlookup' => h.pool id' pooled' (Table.lookup_of_erase hlookup') }
    exact hpool.openAgent (h.pool id pooled hlookup) (hheld.lt_nextAgent (tokens_of_pool hlookup))
  · exact { h with }

theorem created (h : Bound home s) (hheld : Held s) {i : Nat} {c : Creation} :
    Bound (Function.update home s.nextAgent c.id) ({ s with
      creating := s.creating.eraseIdx i
      nextAgent := s.nextAgent + 1 }.openAgent c.fd c.id c.task s.nextAgent) := by
  have hold : ∀ a, a < s.nextAgent → Function.update home s.nextAgent c.id a = home a :=
    fun a ha => Function.update_of_ne (Nat.ne_of_lt ha) _ _
  have hrest : Bound (Function.update home s.nextAgent c.id) { s with
      creating := s.creating.eraseIdx i
      nextAgent := s.nextAgent + 1 } := by
    refine { session := fun a id hmem => ?session
             pool := fun id pooled hlookup => ?pool
             recycling := fun t r hlookup => ?recycling
             online := fun id ref href => ?online
             current := fun id ref href => ?current }
    case session =>
      exact (hold a (hheld.lt_nextAgent (tokens_of_held hmem))).trans (h.session a id hmem)
    case pool =>
      exact (hold _ (hheld.lt_nextAgent (tokens_of_pool hlookup))).trans (h.pool id pooled hlookup)
    case recycling =>
      exact (hold _ (hheld.lt_nextAgent (tokens_of_recycling hlookup))).trans (h.recycling t r hlookup)
    case online =>
      exact (hold _ (h.current id ref href).2).trans (h.online id ref href)
    case current =>
      exact ⟨(h.current id ref href).1, Nat.lt_succ_of_lt (h.current id ref href).2⟩
  exact hrest.openAgent (Function.update_self _ _ _) (Nat.lt_succ_self _)

theorem suspendClose (h : Bound home s) {r : Recycling} (hhome : home r.agent = r.id) : Bound home (s.suspendClose r) :=
  { h with
    recycling := fun t r' hlookup => by
      rcases Table.lookup_insert_cases hlookup with ⟨-, rfl⟩ | ⟨-, hlookup⟩
      · exact hhome
      · exact h.recycling t r' hlookup }

/-- The account of a close is free, if it was not. -/
theorem clear (h : Bound home s) (id : Id) :
    Bound home { s with onlineAccount := Function.update s.onlineAccount id none } := by
  have hback : ∀ id' ref, Function.update s.onlineAccount id none id' = some ref → s.onlineAccount id' = some ref := by
    intro id' ref href
    by_cases hid : id' = id
    · subst hid
      simp at href
    · exact (Function.update_of_ne hid none s.onlineAccount).symm.trans href
  exact { h with
    online := fun id' ref href => h.online id' ref (hback id' ref href)
    current := fun id' ref href => h.current id' ref (hback id' ref href) }

theorem cmdGamedClose (h : Bound home s) {a : Handle} {id : Id} (hhome : home a = id) {fd : Fd}
    (hheld : Held (s.suspendClose ⟨a, id, fd, false⟩)) : Bound home (s.cmdGamedClose a id fd) := by
  unfold Gamed.cmdGamedClose
  split
  · split
    · exact (h.suspendClose hhome).forwardAgent hheld _ _ _
    · exact (h.clear id).suspendClose hhome
  · exact h.suspendClose hhome

theorem recycle (h : Bound home s) {agent : Handle} {id : Id} (hhome : home agent = id) (fd : Fd) (now : Nat) :
    Bound home (s.recycle agent id fd now) := by
  refine h.same (Gamed.same_recycle s agent id fd now) (nextAgent_recycle s agent id fd now) fun id' pooled hlookup => ?_
  rw [clearPool_recycle] at hlookup
  rcases Table.lookup_insert_cases hlookup with ⟨rfl, rfl⟩ | ⟨-, hlookup⟩
  · exact hhome
  · exact h.pool id' pooled hlookup

end Bound

/-! ### The agent of an account -/

/-- The agent of the table `ref`, which `online_account` has for `id`, is not in `clear_pool` and not told to leave. It is
recycled only while the agent that replaces it is created. -/
structure Gamed.Named (s : Gamed) (id : Id) (ref : Ref) : Prop where
  pool : ∀ id' pooled, s.clearPool.lookup id' = some pooled → pooled.agent ≠ (s.info ref).agent
  leaving : none ∉ (s.agent (s.info ref).agent).held
  recycling : ∀ t r, s.recycling.lookup t = some r → r.agent = (s.info ref).agent →
    ∃ c ∈ s.creating, c.id = id ∧ c.task = some t

namespace Gamed.Named

variable {s : Gamed} {id : Id} {ref : Ref}

theorem idle (h : s.Named id ref) {s' : Gamed} (hidle : s.Idle s') : s'.Named id ref where
  pool := fun id' pooled hlookup => by
    rw [hidle.info]
    exact h.pool id' pooled (hidle.pool id' pooled hlookup)
  leaving := fun hmem => by
    rw [hidle.info] at hmem
    rcases hidle.told _ hmem with hmem | ⟨id', pooled, hlookup, hagent⟩
    · exact h.leaving hmem
    · exact h.pool id' pooled hlookup hagent
  recycling := fun t r hlookup hagent => by
    rw [hidle.creating]
    exact h.recycling t r (hidle.recycling ▸ hlookup) (hagent.trans (hidle.info ref))

theorem openAgent (h : s.Named id ref) (href : ref < s.nextInfo) (fd : Fd) (id' : Id) (task : Option Task)
    (agent : Handle) : (s.openAgent fd id' task agent).Named id ref := by
  have hinfo : (s.openAgent fd id' task agent).info ref = s.info ref := Function.update_of_ne (Nat.ne_of_lt href) _ _
  refine ⟨?_, ?_, ?_⟩
  all_goals rw [hinfo]
  · exact h.pool
  · rw [Gamed.openAgent, Gamed.held_send, Multiset.mem_add]
    rintro (hmem | hmem)
    · exact h.leaving hmem
    · split at hmem
      · cases Multiset.mem_singleton.mp hmem
      · cases hmem
  · exact h.recycling

theorem of_openAgent {fd : Fd} {task : Option Task} {agent : Handle} (hheld : Held (s.openAgent fd id task agent)) :
    (s.openAgent fd id task agent).Named id s.nextInfo := by
  have hinfo : (s.openAgent fd id task agent).info s.nextInfo = { agent } := Function.update_self _ _ _
  have hsession : some id ∈ ((s.openAgent fd id task agent).agent agent).held := by
    rw [Gamed.openAgent, Gamed.held_send, if_pos rfl]
    exact Multiset.mem_add.mpr (.inr (Multiset.mem_singleton_self _))
  refine ⟨?_, ?_, ?_⟩
  all_goals rw [hinfo]
  · rintro id' pooled hlookup rfl
    rw [hheld.held_of_pool hlookup] at hsession
    cases hsession
  · intro hmem
    cases Agent.eq_of_mem_held (hheld.card_held_le agent) hsession hmem
  · rintro t r hlookup rfl
    exact absurd hsession (hheld.not_mem_of_lookup hlookup _)

theorem suspendClose (h : s.Named id ref) {r : Recycling} (hr : r.agent ≠ (s.info ref).agent) :
    (s.suspendClose r).Named id ref := by
  refine ⟨h.pool, h.leaving, fun t r' hlookup hagent => ?_⟩
  rcases Table.lookup_insert_cases hlookup with ⟨-, rfl⟩ | ⟨-, hlookup⟩
  · exact absurd hagent hr
  · exact h.recycling t r' hlookup hagent

theorem of_recycling (h : s.Named id ref) {table : Table Task Recycling}
    (htable : ∀ t r, table.lookup t = some r → ∃ r', s.recycling.lookup t = some r' ∧ r'.agent = r.agent) :
    { s with recycling := table }.Named id ref where
  pool := h.pool
  leaving := h.leaving
  recycling := fun t r hlookup hagent => by
    obtain ⟨r', hlookup', hsame⟩ := htable t r hlookup
    exact h.recycling t r' hlookup' (hsame.trans hagent)

theorem recycle (h : s.Named id ref) {agent : Handle} (hagent : agent ≠ (s.info ref).agent) (id' : Id) (fd : Fd)
    (now : Nat) : (s.recycle agent id' fd now).Named id ref := by
  have hsame := Gamed.same_recycle s agent id' fd now
  refine ⟨fun id'' pooled hlookup => ?_, fun hmem => ?_, fun t r hlookup hr => ?_⟩
  · rw [hsame.info]
    rw [clearPool_recycle] at hlookup
    rcases Table.lookup_insert_cases hlookup with ⟨-, rfl⟩ | ⟨-, hlookup⟩
    · exact hagent
    · exact h.pool id'' pooled hlookup
  · rw [hsame.info, leaving_recycle] at hmem
    rcases hmem with hmem | ⟨pooled, hlookup, heq⟩
    · exact h.leaving hmem
    · exact h.pool id' pooled hlookup heq
  · rw [hsame.creating]
    exact h.recycling t r (hsame.recycling ▸ hlookup) (hr.trans (hsame.info ref))

end Gamed.Named

/-! ### Steps -/

/-- What is true in every state of every run. -/
structure Pooling (home : Handle → Id) (s : Gamed) : Prop where
  held : Held s
  tasks : Tasks s
  bound : Bound home s
  named : ∀ id ref, s.onlineAccount id = some ref → s.Named id ref

/-- `forward_agent`, for an account whose agent may be the one that is being recycled. -/
theorem named_forwardAgent {s : Gamed} {fd : Fd} {id : Id} {task : Option Task}
    (hheld : Held (s.forwardAgent fd id task)) (hcurrent : ∀ id ref, s.onlineAccount id = some ref → ref < s.nextInfo)
    (hothers : ∀ id' ref, id' ≠ id → s.onlineAccount id' = some ref → s.Named id' ref)
    (hself : ∀ ref, s.onlineAccount id = some ref →
      Gamed.Named { s with creating := s.creating ++ [⟨fd, id, task⟩] } id ref) (id' : Id) (ref : Ref)
    (href : (s.forwardAgent fd id task).onlineAccount id' = some ref) :
    (s.forwardAgent fd id task).Named id' ref := by
  cases hlookup : s.clearPool.lookup id with
  | some pooled =>
    have hforward : s.forwardAgent fd id task =
        { s with clearPool := s.clearPool.erase id }.openAgent fd id task pooled.agent := by
      simp [Gamed.forwardAgent, hlookup]
    rw [hforward] at hheld href ⊢
    rcases update_some_cases href with ⟨rfl, rfl⟩ | ⟨hid, href⟩
    · exact .of_openAgent hheld
    · have hnamed := hothers id' ref hid href
      have htaken : { s with clearPool := s.clearPool.erase id }.Named id' ref :=
        { hnamed with
          pool := fun id'' pooled' hlookup' => hnamed.pool id'' pooled' (Table.lookup_of_erase hlookup') }
      exact htaken.openAgent (hcurrent id' ref href) _ _ _ _
  | none =>
    have hforward : s.forwardAgent fd id task = { s with creating := s.creating ++ [⟨fd, id, task⟩] } := by
      simp [Gamed.forwardAgent, hlookup]
    rw [hforward] at href ⊢
    by_cases hid : id' = id
    · subst hid
      exact hself ref href
    · have hnamed := hothers id' ref hid href
      refine { hnamed with recycling := fun t r hlookup hagent => ?_ }
      obtain ⟨c, hc, hrest⟩ := hnamed.recycling t r hlookup hagent
      exact ⟨c, List.mem_append_left _ hc, hrest⟩

namespace Pooling

variable {s : Gamed} {home : Handle → Id}

theorem idle (h : Pooling home s) {s' : Gamed} (hidle : s.Idle s') : Pooling home s' where
  held := h.held.idle hidle
  tasks := h.tasks.same hidle.toSame
  bound := h.bound.idle hidle
  named := fun id ref href => (h.named id ref (hidle.onlineAccount ▸ href)).idle hidle

theorem named_created (h : Pooling home s) {i : Nat} {c : Creation} (hc : s.creating[i]? = some c)
    (hheld : Held ({ s with
      creating := s.creating.eraseIdx i
      nextAgent := s.nextAgent + 1 }.openAgent c.fd c.id c.task s.nextAgent)) (id : Id) (ref : Ref)
    (href : ({ s with
      creating := s.creating.eraseIdx i
      nextAgent := s.nextAgent + 1 }.openAgent c.fd c.id c.task s.nextAgent).onlineAccount id = some ref) :
    ({ s with
      creating := s.creating.eraseIdx i
      nextAgent := s.nextAgent + 1 }.openAgent c.fd c.id c.task s.nextAgent).Named id ref := by
  rcases update_some_cases href with ⟨rfl, rfl⟩ | ⟨hid, href⟩
  · exact .of_openAgent hheld
  · -- an agent of another account waits for another creation
    have hnamed := h.named id ref href
    have hrest : Gamed.Named { s with creating := s.creating.eraseIdx i, nextAgent := s.nextAgent + 1 } id ref := by
      refine { hnamed with recycling := fun t r hlookup hagent => ?_ }
      obtain ⟨c', hc', rfl, ht⟩ := hnamed.recycling t r hlookup hagent
      exact ⟨c', mem_eraseIdx_of_ne hc hc' hid, rfl, ht⟩
    exact hrest.openAgent (h.bound.current id ref href).1 _ _ _ _

theorem ne_agent (h : Pooling home s) {a : Handle} {id : Id} (hhome : home a = id) {id' : Id} {ref : Ref}
    (href : s.onlineAccount id' = some ref) (hid : id' ≠ id) : a ≠ (s.info ref).agent := by
  rintro rfl
  exact hid ((h.bound.online id' ref href).symm.trans hhome)

theorem named_cmdGamedClose (h : Pooling home s) {a : Handle} {id : Id} (hhome : home a = id) {fd : Fd}
    (hheld : Held (s.cmdGamedClose a id fd)) (id' : Id) (ref : Ref)
    (href : (s.cmdGamedClose a id fd).onlineAccount id' = some ref) : (s.cmdGamedClose a id fd).Named id' ref := by
  have hothers : ∀ {r : Recycling}, r.agent = a → ∀ id' ref, id' ≠ id → s.onlineAccount id' = some ref →
      (s.suspendClose r).Named id' ref := by
    intro r hr id' ref hid href
    exact (h.named id' ref href).suspendClose (hr ▸ h.ne_agent hhome href hid)
  cases honline : s.onlineAccount id with
  | none =>
    have hclose : s.cmdGamedClose a id fd = s.suspendClose ⟨a, id, fd, true⟩ := by
      simp [Gamed.cmdGamedClose, honline]
    rw [hclose] at href ⊢
    refine hothers rfl id' ref ?_ href
    rintro rfl
    cases honline.symm.trans href
  | some ref₀ =>
    cases hkick : (s.info ref₀).kick with
    | none =>
      have hclose : s.cmdGamedClose a id fd =
          { s with onlineAccount := Function.update s.onlineAccount id none }.suspendClose ⟨a, id, fd, true⟩ := by
        simp [Gamed.cmdGamedClose, honline, hkick]
      rw [hclose] at href ⊢
      change Function.update s.onlineAccount id none id' = some ref at href
      have hid : id' ≠ id := by
        rintro rfl
        simp at href
      have hnamed := hothers (r := ⟨a, id, fd, true⟩) rfl id' ref hid
        ((Function.update_of_ne hid none s.onlineAccount).symm.trans href)
      exact { hnamed with }
    | some kick =>
      have hclose : s.cmdGamedClose a id fd =
          (s.suspendClose ⟨a, id, fd, false⟩).forwardAgent kick id (some s.nextTask) := by
        simp [Gamed.cmdGamedClose, honline, hkick]
      rw [hclose] at hheld href ⊢
      refine named_forwardAgent hheld (fun id' ref href => (h.bound.current id' ref href).1) (hothers rfl)
        (fun ref href => ?_) id' ref href
      -- the close waits for the agent that replaces the one it recycles
      have hnamed := h.named id ref href
      refine { hnamed with recycling := fun t r hlookup hagent => ?_ }
      rcases Table.lookup_insert_cases hlookup with ⟨rfl, -⟩ | ⟨-, hlookup⟩
      · exact ⟨⟨kick, id, some s.nextTask⟩, List.mem_append_right _ List.mem_cons_self, rfl, rfl⟩
      · obtain ⟨c, hc, hrest⟩ := hnamed.recycling t r hlookup hagent
        exact ⟨c, List.mem_append_left _ hc, hrest⟩

/-- A handler of `cmd_gamed_close` that the logger has answered holds an agent that `online_account` does not name. -/
theorem ne_of_logging (h : Pooling home s) {task : Task} {r : Recycling} (hlookup : s.recycling.lookup task = some r)
    (hlogging : r.logging = true) {id : Id} {ref : Ref} (href : s.onlineAccount id = some ref) :
    r.agent ≠ (s.info ref).agent := by
  intro hagent
  obtain ⟨c, hc, -, ht⟩ := (h.named id ref href).recycling task r hlookup hagent
  obtain ⟨r', hlookup', hlogging'⟩ := h.tasks.pending c hc task ht
  obtain rfl := Option.some.inj (hlookup.symm.trans hlookup')
  cases hlogging.symm.trans hlogging'

theorem step (h : Pooling home s) {event : Event} {s' : Gamed} (hmoves : Moves s event s') :
    ∃ home', Pooling home' s' ∧ ∀ a, a < s.nextAgent → home' a = home a := by
  have hheld := held_step h.held hmoves
  have htasks := h.tasks.step h.held hmoves
  cases hmoves with
  | idle hidle => exact ⟨home, h.idle hidle, fun _ _ => rfl⟩
  | @login fd id s₁ honline hidle =>
    have h₁ := h.idle hidle
    refine ⟨home, ⟨hheld, htasks, h₁.bound.forwardAgent h₁.held _ _ _, ?_⟩, fun _ _ => rfl⟩
    refine named_forwardAgent hheld (fun id' ref href => (h₁.bound.current id' ref href).1)
      (fun id' ref _ href => h₁.named id' ref href) fun ref href => ?_
    rw [hidle.onlineAccount, honline] at href
    cases href
  | @created i c hc =>
    refine ⟨_, ⟨hheld, htasks, h.bound.created h.held, h.named_created hc hheld⟩, fun a ha => ?_⟩
    exact Function.update_of_ne (Nat.ne_of_lt ha) _ _
  | @close a id fd outbox houtbox =>
    have hidle := Gamed.idle_popOutbox houtbox
    have hhome : home a = id := by
      refine h.bound.session a id ?_
      rw [Agent.held_pop_outbox houtbox]
      exact Multiset.mem_add.mpr (.inl (Multiset.mem_singleton_self _))
    refine ⟨home, ⟨hheld, htasks, (h.idle hidle).bound.cmdGamedClose hhome (h.held.suspendClose houtbox rfl), ?_⟩,
      fun _ _ => rfl⟩
    exact (h.idle hidle).named_cmdGamedClose hhome hheld
  | @marked a fd task s₁ hidle hcaller =>
    have h₁ := h.idle hidle
    have htable : ∀ t r, (s₁.recycling.modify task fun r => { r with logging := true }).lookup t = some r →
        ∃ r', s₁.recycling.lookup t = some r' ∧ r'.agent = r.agent ∧ r'.id = r.id := by
      intro t r hlookup
      rw [Table.lookup_modify] at hlookup
      split at hlookup
      · obtain ⟨r', hr', rfl⟩ := Option.map_eq_some_iff.mp hlookup
        exact ⟨r', hr', rfl, rfl⟩
      · exact ⟨r, hlookup, rfl, rfl⟩
    refine ⟨home, ⟨hheld, htasks, { h₁.bound with recycling := fun t r hlookup => ?_ }, fun id ref href => ?_⟩,
      fun _ _ => rfl⟩
    · obtain ⟨r', hlookup', hagent, hid⟩ := htable t r hlookup
      rw [← hagent, ← hid]
      exact h₁.bound.recycling t r' hlookup'
    · refine (h₁.named id ref href).of_recycling fun t r hlookup => ?_
      obtain ⟨r', hlookup', hagent, -⟩ := htable t r hlookup
      exact ⟨r', hlookup', hagent⟩
  | @recycled task now r hlookup hlogging =>
    have hsame := Gamed.same_recycle { s with recycling := s.recycling.erase task } r.agent r.id r.fd now
    have hless : ∀ t r', (s.recycling.erase task).lookup t = some r' → s.recycling.lookup t = some r' :=
      fun t r' => Table.lookup_of_erase
    have hbound : Bound home { s with recycling := s.recycling.erase task } :=
      { h.bound with recycling := fun t r' hlookup' => h.bound.recycling t r' (hless t r' hlookup') }
    refine ⟨home, ⟨hheld, htasks, hbound.recycle (h.bound.recycling task r hlookup) _ _, fun id ref href => ?_⟩,
      fun _ _ => rfl⟩
    have href' : s.onlineAccount id = some ref := by
      rw [hsame.onlineAccount] at href
      exact href
    have hnamed : Gamed.Named { s with recycling := s.recycling.erase task } id ref :=
      (h.named id ref href').of_recycling fun t r' hlookup' => ⟨r', hless t r' hlookup', rfl⟩
    exact hnamed.recycle (h.ne_of_logging hlookup hlogging href') _ _ _
  | @dropped a fd task r s₁ hidle hcaller hlookup =>
    have h₁ := h.idle hidle
    have hless : ∀ t r', (s₁.recycling.erase task).lookup t = some r' → s₁.recycling.lookup t = some r' :=
      fun t r' => Table.lookup_of_erase
    have hsend : Gamed.Idle { s₁ with recycling := s₁.recycling.erase task }
        ({ s₁ with recycling := s₁.recycling.erase task }.send r.agent (.closeDone r.fd)) :=
      Gamed.idle_send _ _ rfl (by simp [Agent.callerContent])
    have hbound : Bound home { s₁ with recycling := s₁.recycling.erase task } :=
      { h₁.bound with recycling := fun t r' hlookup' => h₁.bound.recycling t r' (hless t r' hlookup') }
    refine ⟨home, ⟨hheld, htasks, hbound.idle hsend, fun id ref href => ?_⟩, fun _ _ => rfl⟩
    have hnamed : Gamed.Named { s₁ with recycling := s₁.recycling.erase task } id ref :=
      (h₁.named id ref href).of_recycling fun t r' hlookup' => ⟨r', hless t r' hlookup', rfl⟩
    exact hnamed.idle hsend

end Pooling

/-- An agent that is told to leave is told once and for all. -/
theorem leaving_step {s s' : Gamed} {event : Event} (hmoves : Moves s event s') {a : Handle}
    (h : none ∈ (s.agent a).held) : none ∈ (s'.agent a).held := by
  have hsend : ∀ {s : Gamed} (b : Handle) (msg : ToAgent), none ∈ (s.agent a).held →
      none ∈ ((s.send b msg).agent a).held := by
    intro s b msg hmem
    rw [Gamed.held_send]
    exact Multiset.mem_add.mpr (.inl hmem)
  have hforward : ∀ {s : Gamed} (fd : Fd) (id : Id) (task : Option Task), none ∈ (s.agent a).held →
      none ∈ ((s.forwardAgent fd id task).agent a).held := by
    intro s fd id task hmem
    unfold Gamed.forwardAgent
    split
    · exact hsend _ _ hmem
    · exact hmem
  cases hmoves with
  | idle hidle => exact hidle.leaving a h
  | login honline hidle => exact hforward _ _ _ (hidle.leaving a h)
  | created hc => exact hsend _ _ h
  | close houtbox =>
    have hmem := (Gamed.idle_popOutbox houtbox).leaving a h
    unfold Gamed.cmdGamedClose
    split
    · split
      · exact hforward _ _ _ hmem
      · exact hmem
    · exact hmem
  | marked hidle hcaller => exact hidle.leaving a h
  | recycled hlookup hlogging => exact leaving_recycle.mpr (.inl h)
  | dropped hidle hcaller hlookup => exact hsend _ _ (hidle.leaving a h)

theorem nextAgent_le {s s' : Gamed} {event : Event} (hmoves : Moves s event s') : s.nextAgent ≤ s'.nextAgent := by
  cases hmoves with
  | idle hidle => exact hidle.nextAgent.ge
  | login honline hidle =>
    rw [nextAgent_forwardAgent]
    exact hidle.nextAgent.ge
  | created hc => exact Nat.le_succ _
  | close houtbox =>
    rw [nextAgent_cmdGamedClose]
    exact le_rfl
  | marked hidle hcaller => exact hidle.nextAgent.ge
  | recycled hlookup hlogging =>
    rw [nextAgent_recycle]
  | dropped hidle hcaller hlookup => exact hidle.nextAgent.ge

/-! ### Runs -/

/-- The call of `cmd_agent_open` for the account is with the agent. -/
def Gamed.Opens (s : Gamed) (a : Handle) (id : Id) : Prop :=
  ∃ fd task, ToAgent.cmdAgentOpen fd id task ∈ (s.agent a).inbox

/-- `self_exit` is with the agent. -/
def Gamed.Exits (s : Gamed) (a : Handle) : Prop := ToAgent.selfExit ∈ (s.agent a).inbox

theorem Gamed.Opens.mem_held {s : Gamed} {a : Handle} {id : Id} (h : s.Opens a id) : some id ∈ (s.agent a).held := by
  obtain ⟨fd, task, hmem⟩ := h
  have htotal := Agent.mem_total_of_inbox Agent.heldContent hmem (Multiset.mem_singleton_self (some id))
  exact Multiset.mem_add.mpr (.inl (Multiset.mem_add.mpr (.inl htotal)))

theorem Gamed.Exits.mem_held {s : Gamed} {a : Handle} (h : s.Exits a) : none ∈ (s.agent a).held := by
  have htotal := Agent.mem_total_of_inbox Agent.heldContent h (Multiset.mem_singleton_self none)
  exact Multiset.mem_add.mpr (.inl (Multiset.mem_add.mpr (.inl htotal)))

/-- In every state of a run the agents have their accounts, and no agent has been opened for another one. -/
theorem exists_pooling {maxclient : Int} {events : List Event} {s : Gamed}
    (hrun : run step { gate := { maxclient } } events = some s) :
    ∃ home, Pooling home s ∧
      ∀ a id, Once step (fun s => s.Opens a id) { gate := { maxclient } } events → a < s.nextAgent ∧ home a = id := by
  induction events using List.reverseRecOn generalizing s with
  | nil =>
    obtain rfl := Option.some.inj hrun
    have hidle := Gamed.idle_gate {} { maxclient }
    refine ⟨fun _ => 0, ⟨held_init.idle hidle, tasks_init.same hidle.toSame, (bound_init _).idle hidle, ?_⟩, ?_⟩
    · intro id ref href
      cases href
    · intro a id honce
      obtain ⟨fd, task, hmem⟩ := once_nil.mp honce
      cases hmem
  | append_singleton events event ih =>
    have hrun' := hrun
    rw [run_snoc] at hrun'
    obtain ⟨s₀, hrun₀, hstep⟩ := Option.bind_eq_some_iff.mp hrun'
    obtain ⟨home, hpooling, hopened⟩ := ih hrun₀
    have hmoves := moves_of_step hstep
    obtain ⟨home', hpooling', hkept⟩ := hpooling.step hmoves
    refine ⟨home', hpooling', fun a id honce => ?_⟩
    rcases (once_snoc hrun).mp honce with honce | hopens
    · obtain ⟨hlt, hhome⟩ := hopened a id honce
      exact ⟨hlt.trans_le (nextAgent_le hmoves), (hkept a hlt).trans hhome⟩
    · refine ⟨?_, hpooling'.bound.session a id hopens.mem_held⟩
      exact hpooling'.held.lt_nextAgent (tokens_of_held hopens.mem_held)

theorem leaving_of_once {maxclient : Int} {events : List Event} {s : Gamed}
    (hrun : run step { gate := { maxclient } } events = some s) {a : Handle}
    (honce : Once step (fun s => s.Exits a) { gate := { maxclient } } events) : none ∈ (s.agent a).held := by
  induction events using List.reverseRecOn generalizing s with
  | nil =>
    obtain rfl := Option.some.inj hrun
    cases once_nil.mp honce
  | append_singleton events event ih =>
    have hrun' := hrun
    rw [run_snoc] at hrun'
    obtain ⟨s₀, hrun₀, hstep⟩ := Option.bind_eq_some_iff.mp hrun'
    rcases (once_snoc hrun).mp honce with honce | hexits
    · exact leaving_step (moves_of_step hstep) (ih hrun₀ honce)
    · exact hexits.mem_held

/-- **Agents are recycled for their account.** In every state of every run an agent in `clear_pool` has no user, it is
there once, and `cmd_agent_open` has never been called on it for another account than the one under which it is there.
An agent to which `self_exit` has been sent is from then on neither in `online_account` nor in `clear_pool`, and
`cmd_agent_open` is not called on it. -/
theorem clearPool_bound (maxclient : Int) (events : List Event) (s : Gamed)
    (hrun : run step { gate := { maxclient } } events = some s) :
    (∀ id pooled, s.clearPool.lookup id = some pooled → (s.agent pooled.agent).user = none ∧
      (∀ id', Once step (fun s => s.Opens pooled.agent id') { gate := { maxclient } } events → id' = id) ∧
        ∀ id' pooled', s.clearPool.lookup id' = some pooled' → pooled'.agent = pooled.agent → id' = id) ∧
      ∀ a, Once step (fun s => s.Exits a) { gate := { maxclient } } events →
        (∀ id ref, s.onlineAccount id = some ref → (s.info ref).agent ≠ a) ∧
          (∀ id pooled, s.clearPool.lookup id = some pooled → pooled.agent ≠ a) ∧ ∀ id, ¬ s.Opens a id := by
  obtain ⟨home, hpooling, hopened⟩ := exists_pooling hrun
  refine ⟨fun id pooled hlookup => ⟨?_, fun id' honce => ?_, fun id' pooled' hlookup' heq => ?_⟩, fun a honce => ?_⟩
  · exact user_of_held (hpooling.held.held_of_pool hlookup)
  · exact (hopened pooled.agent id' honce).2.symm.trans (hpooling.bound.pool id pooled hlookup)
  · rw [← hpooling.bound.pool id' pooled' hlookup', heq]
    exact hpooling.bound.pool id pooled hlookup
  · have hleaving := leaving_of_once hrun honce
    refine ⟨fun id ref href => ?_, fun id pooled hlookup => ?_, fun id hopens => ?_⟩
    · rintro rfl
      exact (hpooling.named id ref href).leaving hleaving
    · rintro rfl
      rw [hpooling.held.held_of_pool hlookup] at hleaving
      cases hleaving
    · cases Agent.eq_of_mem_held (hpooling.held.card_held_le a) hopens.mem_held hleaving

/-- After a takeover the first agent of the account is in `clear_pool`, and a tick makes it leave. -/
theorem clearPool_bound_takes_over :
    (∃ s, run step { gate := { maxclient := 64 } } takesOver = some s ∧ s.clearPool.lookup 7 = some ⟨0, 60⟩ ∧
      (s.agent 0).user = none) ∧
      ∃ s, run step { gate := { maxclient := 64 } } (takesOver ++ [.tick 61]) = some s ∧ s.Exits 0 ∧
        ∀ id, ¬ s.Opens 0 id := by
  constructor
  · refine ⟨_, rfl, by decide, ?_⟩
    exact ((clearPool_bound 64 takesOver _ rfl).1 7 ⟨0, 60⟩ (by decide)).1
  · obtain ⟨s, hrun, hexits⟩ : ∃ s, run step { gate := { maxclient := 64 } } (takesOver ++ [.tick 61]) = some s ∧
        ToAgent.selfExit ∈ (s.agent 0).inbox := ⟨_, rfl, by decide⟩
    exact ⟨s, hrun, hexits, ((clearPool_bound 64 _ s hrun).2 0 ⟨_, s, List.prefix_rfl, hrun, hexits⟩).2.2⟩

end SkynetServer.Game
