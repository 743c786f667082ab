import Mathlib.Init

/-!
# Machines that answer

A machine answers each event it takes; a step may fail. It simulates a machine whose steps cannot fail, under a condition on
the states and events of the latter, when from related states every step that meets the condition goes through, gives the
same answer and leads to related states. Over a whole run it then gives the same answers.
-/

namespace Lib

variable {σ τ ε ω : Type}

/-- What the events are answered by a machine that cannot fail, and where they lead. -/
def answers (next : τ → ε → ω × τ) : τ → List ε → List ω × τ
  | t, [] => ([], t)
  | t, event :: events =>
    let (answer, t') := next t event
    let (rest, t'') := answers next t' events
    (answer :: rest, t'')

/-- The same for a machine that may fail, if each of the steps went through. -/
def trace (step : σ → ε → Option (ω × σ)) : σ → List ε → Option (List ω × σ)
  | s, [] => some ([], s)
  | s, event :: events => do
    let (answer, s') ← step s event
    let (rest, s'') ← trace step s' events
    return (answer :: rest, s'')

/-- Each event meets the condition in the state in which it happens. -/
def Allowed (next : τ → ε → ω × τ) (ok : τ → ε → Prop) : τ → List ε → Prop
  | _, [] => True
  | t, event :: events => ok t event ∧ Allowed next ok (next t event).2 events

instance decidableAllowed (next : τ → ε → ω × τ) (ok : τ → ε → Prop) [∀ t event, Decidable (ok t event)] :
    (t : τ) → (events : List ε) → Decidable (Allowed next ok t events)
  | _, [] => inferInstanceAs (Decidable True)
  | t, event :: events =>
    have := decidableAllowed next ok (next t event).2 events
    inferInstanceAs (Decidable (ok t event ∧ Allowed next ok (next t event).2 events))

/-- One step of the machine is one step of the other. -/
def Simulates (step : σ → ε → Option (ω × σ)) (next : τ → ε → ω × τ) (ok : τ → ε → Prop) (rel : σ → τ → Prop) : Prop :=
  ∀ s t event, rel s t → ok t event → ∃ s', step s event = some ((next t event).1, s') ∧ rel s' (next t event).2

/-- A run of the machine is a run of the other. -/
theorem Simulates.trace_eq {step : σ → ε → Option (ω × σ)} {next : τ → ε → ω × τ} {ok : τ → ε → Prop} {rel : σ → τ → Prop}
    (hsim : Simulates step next ok rel) {s : σ} {t : τ} {events : List ε} (hrel : rel s t)
    (hok : Allowed next ok t events) :
    ∃ s', trace step s events = some ((answers next t events).1, s') ∧ rel s' (answers next t events).2 := by
  induction events generalizing s t with
  | nil => exact ⟨s, rfl, hrel⟩
  | cons event events ih =>
    obtain ⟨s₁, hstep, hrel₁⟩ := hsim s t event hrel hok.1
    obtain ⟨s', htrace, hrel'⟩ := ih hrel₁ hok.2
    exact ⟨s', by simp [trace, hstep, htrace, answers], hrel'⟩

/-! A machine without a state. -/

theorem answers_unit (f : ε → ω) (events : List ε) : answers (fun (_ : Unit) event => (f event, ())) () events = (events.map f, ()) := by
  induction events with
  | nil => rfl
  | cons event events ih => simp [answers, ih]

theorem allowed_unit {next : Unit → ε → ω × Unit} {ok : ε → Prop} {events : List ε} (h : ∀ event ∈ events, ok event) :
    Allowed next (fun _ event => ok event) () events := by
  induction events with
  | nil => trivial
  | cons event events ih =>
    exact ⟨h event List.mem_cons_self, ih fun other hother => h other (List.mem_cons_of_mem _ hother)⟩

end Lib
