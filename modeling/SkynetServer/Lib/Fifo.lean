import Mathlib.Data.List.Basic

/-!
# First in, first out

What a queue is for: calls push elements, pop the oldest one, and may clear the queue. The queue itself is the list of the
elements it holds, oldest first. A machine that takes the same calls is such a queue when each of its steps answers what
the list answers and leaves it holding what the list then holds; `Fifo.trace_eq` carries this over to whole runs.
-/

namespace Lib

namespace Fifo

variable {α σ : Type} {clears : Bool}

/-- The calls of a queue; only some queues can be cleared. -/
inductive Call (α : Type) : Bool → Type where
  | push {clears : Bool} (a : α) : Call α clears
  | pop {clears : Bool} : Call α clears
  | clear : Call α true

/-- What the queue holds after a call. -/
def next (held : List α) : Call α clears → List α
  | .push a => held ++ [a]
  | .pop => held.tail
  | .clear => []

/-- What a call hands out: for a pop the oldest element, if there is one. -/
def out (held : List α) : Call α clears → Option α
  | .push _ => none
  | .pop => held.head?
  | .clear => none

/-- The elements pushed and not yet popped or cleared, oldest first. -/
def held (calls : List (Call α clears)) : List α := calls.foldl next []

/-- What each of the calls hands out, from the queue that holds the given elements on. -/
def answers : List α → List (Call α clears) → List (Option α)
  | _, [] => []
  | elements, call :: calls => out elements call :: answers (next elements call) calls

/-- What a machine hands out at each call, and the state it is left in, if each of the calls returned. -/
def trace (step : σ → Call α clears → Option (Option α × σ)) (s : σ) : List (Call α clears) → Option (List (Option α) × σ)
  | [] => some ([], s)
  | call :: calls => do
    let (answer, s') ← step s call
    let (answers, s'') ← trace step s' calls
    return (answer :: answers, s'')

/-- One call of the machine does to `contents` what it does to the list. -/
def Simulates (step : σ → Call α clears → Option (Option α × σ)) (contents : σ → List α) : Prop :=
  ∀ s call, ∃ s', step s call = some (out (contents s) call, s') ∧ contents s' = next (contents s) call

/-- A machine whose steps are those of the queue hands out what the queue hands out, in every run. -/
theorem trace_eq {step : σ → Call α clears → Option (Option α × σ)} {contents : σ → List α}
    (hsim : Simulates step contents) (s : σ) (calls : List (Call α clears)) :
    ∃ s', trace step s calls = some (answers (contents s) calls, s') ∧ contents s' = calls.foldl next (contents s) := by
  induction calls generalizing s with
  | nil => exact ⟨s, rfl, rfl⟩
  | cons call calls ih =>
    obtain ⟨s₁, hstep, hnext⟩ := hsim s call
    obtain ⟨s₂, hrest, hheld⟩ := ih s₁
    refine ⟨s₂, ?_, ?_⟩
    · rw [trace, hstep]
      simp only [Option.bind_eq_bind, Option.bind_some, hrest, answers, hnext]
      rfl
    · rw [hheld, hnext, List.foldl_cons]

theorem trace_eq_of_nil {step : σ → Call α clears → Option (Option α × σ)} {contents : σ → List α}
    (hsim : Simulates step contents) {s : σ} (hnil : contents s = []) (calls : List (Call α clears)) :
    ∃ s', trace step s calls = some (answers [] calls, s') ∧ contents s' = held calls := by
  have h := trace_eq hsim s calls
  rw [hnil] at h
  exact h

end Fifo

end Lib
