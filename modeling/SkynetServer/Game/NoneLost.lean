import SkynetServer.Game.Logins

/-!
# No login is lost

The runs of the game server. In a run whose events all meet `Calm`, `Logins` says in every state where each accepted login
is. Once nothing is in flight there is only one place left for it: the client is forwarded. In the same way the agent that
`online_account` names for an account has nothing left but its user, and that user is the user of a client.
-/

namespace SkynetServer.Game

open Lib

namespace Logins

variable {s : Gamed}

theorem kickDone_none (h : Logins s) (a : Handle) : Logins (s.send a (.kickDone none)) := by
  refine h.send (fun caller hcaller => ?_) (fun fd hfd => ?_) fun fd hfd => ?_
  · cases hcaller
  · cases hfd
  · cases hfd

theorem kickClient (h : Logins s) {a : Handle} {userFd : Option Fd} {outbox : List ToGamed}
    (houtbox : (s.agent a).outbox = .cmdGamedKick userFd none :: outbox) :
    Logins ((s.popOutbox a outbox).cmdGamedKick a userFd none) := by
  have hpop : Logins (s.popOutbox a outbox) := by
    refine h.popOutbox houtbox (fun caller hcaller => ?_) fun id fd heq => ?_
    · cases hcaller
    · cases heq
  cases userFd with
  | none => exact hpop.kickDone_none a
  | some fd =>
    simp only [Gamed.cmdGamedKick]
    split
    · refine hpop.setAgent ((hpop.agents a).pushKick fun t ht => by cases ht) ?_ (fun id hid => ?_) fun _ hunder u hu => ?_
      · exact (Agent.logins_pushKick _ fd none).trans (zero_add _)
      · rw [Agent.held_pushKick]
        exact hid
      · rw [Agent.early_pushKick]
        exact hunder u hu
    · exact hpop.kickDone_none a

theorem closeFailed (h : Logins s) {a : Handle} {fd : Fd} {outbox : List ToGamed}
    (houtbox : (s.agent a).outbox = .answer (.closing fd) false :: outbox) : Logins (s.popOutbox a outbox) := by
  refine h.popOutbox houtbox (fun caller hcaller => ?_) fun id fd' heq => ?_
  · rw [Multiset.mem_singleton.mp hcaller]
    rfl
  · cases heq

theorem handle (hheld : Held s) (hsessions : Sessions s) (h : Logins s) {a : Handle} {msg : ToGamed}
    {outbox : List ToGamed} (houtbox : (s.agent a).outbox = msg :: outbox) (hcalm : Calm s (.handle a)) :
    Logins ((s.popOutbox a outbox).handle a msg) := by
  have hanswered : ∀ caller ok, msg = .answer caller ok → caller.isLogin = true → ok = true := by
    rintro caller ok rfl hlogin
    exact (h.agents a).answered caller ok (by simp [houtbox]) hlogin
  cases msg with
  | cmdGamedClose id fd =>
    have hlogins : (s.agent a).logins = 0 := by simpa [Calm, houtbox] using hcalm
    exact h.cmdGamedClose hheld hsessions ⟨houtbox, hlogins⟩
  | cmdGamedKick userFd takeover =>
    cases takeover with
    | none => exact h.kickClient houtbox
    | some t => exact h.cmdGamedKick hheld houtbox
  | answer caller ok =>
    cases caller with
    | otherLogin t =>
      obtain rfl : ok = true := hanswered _ ok rfl rfl
      exact h.otherLogin hheld houtbox
    | kicking t =>
      obtain rfl : ok = true := hanswered _ ok rfl rfl
      exact h.kicking hheld houtbox
    | opening fd task =>
      obtain rfl : ok = true := hanswered _ ok rfl rfl
      exact h.opened houtbox
    | closing fd =>
      cases ok with
      | true => exact h.closing houtbox
      | false => exact h.closeFailed houtbox

theorem created (hheld : Held s) (hsessions : Sessions s) (h : Logins s) {i : Nat} {c : Creation}
    (hc : s.creating[i]? = some c) :
    Logins ({ s with
      creating := s.creating.eraseIdx i
      nextAgent := s.nextAgent + 1 }.openAgent c.fd c.id c.task s.nextAgent) := by
  refine (h.create hsessions hc).openAgent hsessions.current ?_ c.task
  have hfresh := hheld.fresh s.nextAgent le_rfl
  rw [Gamed.tokens] at hfresh
  have hcard : Multiset.card (s.agent s.nextAgent).held = 0 := by omega
  exact Multiset.card_eq_zero.mp hcard

end Logins

/-- Nothing is in flight, and no handler is suspended. -/
structure Gamed.Quiet (s : Gamed) : Prop where
  authenticating : s.authenticating = []
  refused : s.refused = []
  creating : s.creating = []
  recycling : s.recycling.entries = []
  agents : ∀ a, (s.agent a).inbox = [] ∧ (s.agent a).handlers = [] ∧ (s.agent a).outbox = [] ∧ (s.agent a).kicks = []
  closing : ∀ fd, s.gate.closing fd = 0

namespace Gamed.Quiet

variable {s : Gamed}

theorem total (h : s.Quiet) {β : Type} (content : Agent.Content β) (a : Handle) : (s.agent a).total content = 0 := by
  obtain ⟨hinbox, hhandlers, houtbox, hkicks⟩ := h.agents a
  simp [Agent.total, hinbox, hhandlers, houtbox, hkicks]

theorem logins (h : s.Quiet) (a : Handle) : (s.agent a).logins = 0 := by
  simp [Agent.logins, Agent.callers, h.total]

end Gamed.Quiet

/-! ### Runs -/

instance decidableCalm (s : Gamed) : (event : Event) → Decidable (Calm s event)
  | .authenticated fd (some id) =>
    inferInstanceAs (Decidable (s.gate.agentOf fd ≠ none ∧ (∀ c ∈ s.creating, c.id ≠ id) ∧
      ∀ ref ∈ s.onlineAccount id, (s.info ref).kick = none ∧ (s.agent (s.info ref).agent).logins = 0))
  | .disconnect fd => inferInstanceAs (Decidable (s.gate.agentOf fd = some none → s.accepted fd = none))
  | .closed fd => inferInstanceAs (Decidable (s.gate.agentOf fd = some none → s.accepted fd = none))
  | .handle a =>
    match h : (s.agent a).outbox with
    | .cmdGamedClose _ _ :: _ => decidable_of_iff ((s.agent a).logins = 0) (by simp [Calm, h])
    | .cmdGamedKick _ _ :: _ => isTrue (by simp [Calm, h])
    | .answer _ _ :: _ => isTrue (by simp [Calm, h])
    | [] => isTrue (by simp [Calm, h])
  | .resume _ _ ok => inferInstanceAs (Decidable (ok = true))
  | .authenticated _ none => isTrue trivial
  | .connect _ _ => isTrue trivial
  | .data _ _ => isTrue trivial
  | .created _ => isTrue trivial
  | .tick _ => isTrue trivial
  | .refusedLogged _ => isTrue trivial
  | .kicked _ _ => isTrue trivial
  | .logged _ _ => isTrue trivial
  | .receive _ _ => isTrue trivial

end SkynetServer.Game
