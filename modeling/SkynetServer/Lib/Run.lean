import Mathlib.Data.List.Induction

/-!
# Runs of a machine

A machine takes one event at a time; an event that is not possible in a state has no next state. A condition on events
holds along a run when each event meets it in the state in which it happens, and what such events preserve is true
wherever the run leads.
-/

namespace Lib

variable {σ ε : Type}

/-- The state after the events, if each of them was possible. -/
def run (step : σ → ε → Option σ) (s : σ) (events : List ε) : Option σ := events.foldlM step s

/-- Each event meets `ok` in the state before it. -/
def Along (step : σ → ε → Option σ) (ok : σ → ε → Prop) (s : σ) (events : List ε) : Prop :=
  ∀ done event, done ++ [event] <+: events → ∀ s', run step s done = some s' → ok s' event

@[simp] theorem run_nil (step : σ → ε → Option σ) (s : σ) : run step s [] = some s := rfl

theorem run_snoc (step : σ → ε → Option σ) (s : σ) (events : List ε) (event : ε) :
    run step s (events ++ [event]) = (run step s events).bind fun s' => step s' event := by
  simp only [run, List.foldlM_append, List.foldlM_cons, List.foldlM_nil, bind_pure]
  rfl

/-- A loop over consecutive numbers goes through if each round keeps what is known when its number comes up. -/
theorem foldlM_range'_of_invariant {step : σ → Nat → Option σ} (inv : Nat → σ → Prop) {a b n : Nat} {s : σ}
    (hb : a + n = b) (hinit : inv a s)
    (hstep : ∀ i s, a ≤ i → i < b → inv i s → ∃ s', step s i = some s' ∧ inv (i + 1) s') :
    ∃ s', (List.range' a n).foldlM step s = some s' ∧ inv b s' := by
  induction n generalizing a s with
  | zero =>
    obtain rfl : a = b := hb
    exact ⟨s, rfl, hinit⟩
  | succ n ih =>
    obtain ⟨s₁, hstep₁, hinv₁⟩ := hstep a s (Nat.le_refl a) (by omega) hinit
    obtain ⟨s', hrun, hinv⟩ := ih (by omega) hinv₁ fun i s hi => hstep i s (by omega)
    refine ⟨s', ?_, hinv⟩
    rw [List.range'_succ, List.foldlM_cons, hstep₁]
    exact hrun

theorem Along.of_prefix {step : σ → ε → Option σ} {ok : σ → ε → Prop} {s : σ} {events done : List ε}
    (h : Along step ok s events) (hdone : done <+: events) : Along step ok s done :=
  fun before event hpre => h before event (hpre.trans hdone)

theorem along_nil (step : σ → ε → Option σ) (ok : σ → ε → Prop) (s : σ) : Along step ok s [] := by
  intro done event hpre
  simp at hpre

theorem along_cons {step : σ → ε → Option σ} {ok : σ → ε → Prop} {s : σ} {event : ε} {events : List ε}
    (hfirst : ok s event) (hrest : ∀ s', step s event = some s' → Along step ok s' events) :
    Along step ok s (event :: events) := by
  intro done last hpre s' hrun
  cases done with
  | nil =>
    obtain rfl : last = event := by simpa using hpre
    obtain rfl := Option.some.inj hrun
    exact hfirst
  | cons first done =>
    obtain ⟨rfl, hpre'⟩ := List.cons_prefix_cons.mp hpre
    rw [run, List.foldlM_cons] at hrun
    obtain ⟨s₁, hstep, hrun⟩ := Option.bind_eq_some_iff.mp hrun
    exact hrest s₁ hstep done last hpre' s' hrun

theorem along_cons_iff {step : σ → ε → Option σ} {ok : σ → ε → Prop} {s : σ} {event : ε} {events : List ε} :
    Along step ok s (event :: events) ↔ ok s event ∧ ∀ s' ∈ step s event, Along step ok s' events := by
  refine ⟨fun h => ⟨?_, fun s' hstep done last hpre s'' hrun => ?_⟩, fun h => along_cons h.1 h.2⟩
  · exact h [] event (List.cons_prefix_cons.mpr ⟨rfl, List.nil_prefix⟩) s rfl
  · refine h (event :: done) last (List.cons_prefix_cons.mpr ⟨rfl, hpre⟩) s'' ?_
    rw [run, List.foldlM_cons, Option.mem_def.mp hstep]
    exact hrun

/-- Whether a condition that can be decided holds along a run can be decided by running it. -/
instance decidableAlong (step : σ → ε → Option σ) (ok : σ → ε → Prop) [∀ s event, Decidable (ok s event)] :
    (events : List ε) → (s : σ) → Decidable (Along step ok s events)
  | [], s => isTrue (along_nil step ok s)
  | _ :: events, _ =>
    have : ∀ s', Decidable (Along step ok s' events) := decidableAlong step ok events
    decidable_of_iff _ along_cons_iff.symm

/-- Two conditions hold along the same runs if they agree wherever a run that meets the first one leads. -/
theorem along_congr {step : σ → ε → Option σ} {p q : σ → ε → Prop} {inv : σ → Prop}
    (hiff : ∀ s event, inv s → (p s event ↔ q s event))
    (hstep : ∀ s event s', inv s → p s event → step s event = some s' → inv s') {s : σ} {events : List ε} (hinit : inv s) :
    Along step p s events ↔ Along step q s events := by
  induction events generalizing s with
  | nil => exact iff_of_true (along_nil step p s) (along_nil step q s)
  | cons event events ih =>
    rw [along_cons_iff, along_cons_iff, hiff s event hinit]
    refine and_congr_right fun hq => forall₂_congr fun s' hs' => ih ?_
    exact hstep s event s' hinit ((hiff s event hinit).mpr hq) (Option.mem_def.mp hs')

/-- Every state of the run has the property. -/
def Always (step : σ → ε → Option σ) (p : σ → Prop) (s : σ) (events : List ε) : Prop :=
  ∀ done s', done <+: events → run step s done = some s' → p s'

/-- Every state of a run has a property if the first one has it, and each event leads to one that has it. -/
theorem always_iff_along {step : σ → ε → Option σ} {p : σ → Prop} {s : σ} {events : List ε} :
    Always step p s events ↔ p s ∧ Along step (fun s event => ∀ s' ∈ step s event, p s') s events := by
  constructor
  · intro h
    refine ⟨h [] s List.nil_prefix rfl, fun done event hpre s' hrun s'' hstep => h _ s'' hpre ?_⟩
    rw [run_snoc, hrun]
    exact hstep
  · rintro ⟨hfirst, halong⟩ done s' hpre hrun
    cases done using List.reverseRecOn with
    | nil =>
      obtain rfl := Option.some.inj hrun
      exact hfirst
    | append_singleton done event =>
      rw [run_snoc] at hrun
      obtain ⟨s₀, hrun₀, hstep⟩ := Option.bind_eq_some_iff.mp hrun
      exact halong done event hpre s₀ hrun₀ s' hstep

/-- Some state of the run has the property. -/
def Once (step : σ → ε → Option σ) (p : σ → Prop) (s : σ) (events : List ε) : Prop :=
  ∃ done s', done <+: events ∧ run step s done = some s' ∧ p s'

theorem once_nil {step : σ → ε → Option σ} {p : σ → Prop} {s : σ} : Once step p s [] ↔ p s := by
  refine ⟨fun ⟨done, s', hdone, hrun, hp⟩ => ?_, fun hp => ⟨[], s, List.prefix_rfl, rfl, hp⟩⟩
  obtain rfl := List.prefix_nil.mp hdone
  obtain rfl := Option.some.inj hrun
  exact hp

theorem once_snoc {step : σ → ε → Option σ} {p : σ → Prop} {s s' : σ} {events : List ε} {event : ε}
    (hrun : run step s (events ++ [event]) = some s') :
    Once step p s (events ++ [event]) ↔ Once step p s events ∨ p s' := by
  constructor
  · rintro ⟨done, s'', hdone, hrun', hp⟩
    rcases List.prefix_concat_iff.mp hdone with rfl | hdone
    · obtain rfl := Option.some.inj (hrun.symm.trans hrun')
      exact .inr hp
    · exact .inl ⟨done, s'', hdone, hrun', hp⟩
  · rintro (⟨done, s'', hdone, hrun', hp⟩ | hp)
    · exact ⟨done, s'', hdone.trans (List.prefix_append _ _), hrun', hp⟩
    · exact ⟨_, s', List.prefix_rfl, hrun, hp⟩

/-- What every event keeps, as long as it meets the condition, holds at the end of the run. -/
theorem run_invariant {step : σ → ε → Option σ} {ok : σ → ε → Prop} {inv : σ → Prop}
    (hstep : ∀ s event s', inv s → ok s event → step s event = some s' → inv s') {s s' : σ} {events : List ε}
    (hinit : inv s) (hok : Along step ok s events) (hrun : run step s events = some s') : inv s' := by
  induction events using List.reverseRecOn generalizing s' with
  | nil =>
    obtain rfl := Option.some.inj hrun
    exact hinit
  | append_singleton events event ih =>
    rw [run_snoc] at hrun
    obtain ⟨s₀, hrun₀, hlast⟩ := Option.bind_eq_some_iff.mp hrun
    exact hstep s₀ event s' (ih (hok.of_prefix (List.prefix_append _ _)) hrun₀)
      (hok events event List.prefix_rfl s₀ hrun₀) hlast

end Lib
