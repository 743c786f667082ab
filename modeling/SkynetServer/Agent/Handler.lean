import Mathlib.Data.List.Nodup
import Mathlib.Logic.Function.Basic

/-!
# Tables of methods

The tables that `handler.lua` merges into the tables of the user and of the agent, and cleans out of them again. `pairs`
visits a table in an order that Lua leaves open. An assertion that fails in the middle of `merge_safe` leaves the entries
that were written before it.
-/

namespace SkynetServer.Handlers

variable {Name Method : Type}

/-- What stands under each name of a table. -/
abbrev Methods (Name Method : Type) := Name → Option Method

/-- The order in which `pairs` visits the entries of a table. -/
structure Pairs (Name Method : Type) where
  order : List (Name × Method) → List (Name × Method)
  perm : ∀ t, (order t).Perm t

variable [DecidableEq Name]

/-- The loop of `merge_safe`, and whether it gets to its end. -/
def mergeLoop (dest : Methods Name Method) : List (Name × Method) → Methods Name Method × Bool
  | [] => (dest, true)
  | (k, v) :: t => if (dest k).isSome then (dest, false) else mergeLoop (Function.update dest k (some v)) t

def mergeSafe (pairs : Pairs Name Method) (dest : Methods Name Method) (t : Option (List (Name × Method))) :
    Methods Name Method × Bool :=
  match t with
  | none => (dest, true)
  | some t => mergeLoop dest (pairs.order t)

/-- The loop of `clean`. -/
def cleanLoop (dest : Methods Name Method) (t : List (Name × Method)) : Methods Name Method :=
  t.foldl (fun dest entry => Function.update dest entry.1 none) dest

def clean (pairs : Pairs Name Method) (dest : Methods Name Method) (t : Option (List (Name × Method))) :
    Methods Name Method :=
  match t with
  | none => dest
  | some t => cleanLoop dest (pairs.order t)

/-- `m` has the entries of `t`, and those of `dest` under the other names. -/
structure Merged (dest : Methods Name Method) (t : List (Name × Method)) (m : Methods Name Method) : Prop where
  entry : ∀ entry ∈ t, m entry.1 = some entry.2
  rest : ∀ k ∉ t.map Prod.fst, m k = dest k

omit [DecidableEq Name] in
theorem Merged.of_perm {dest m : Methods Name Method} {t t' : List (Name × Method)} (h : Merged dest t' m)
    (hperm : t'.Perm t) : Merged dest t m where
  entry entry hentry := h.entry entry (hperm.mem_iff.mpr hentry)
  rest k hk := h.rest k fun hk' => hk ((hperm.map Prod.fst).mem_iff.mp hk')

theorem mergeLoop_of_free {dest : Methods Name Method} {t : List (Name × Method)} (hnodup : (t.map Prod.fst).Nodup)
    (hfree : ∀ k ∈ t.map Prod.fst, dest k = none) : ∃ m, mergeLoop dest t = (m, true) ∧ Merged dest t m := by
  induction t generalizing dest with
  | nil => exact ⟨dest, rfl, by simp, fun _ _ => rfl⟩
  | cons entry t ih =>
    obtain ⟨k, v⟩ := entry
    rw [List.map_cons, List.nodup_cons] at hnodup
    have hk : dest k = none := hfree k List.mem_cons_self
    have hfree' : ∀ k' ∈ t.map Prod.fst, Function.update dest k (some v) k' = none := fun k' hk' => by
      rw [Function.update_of_ne fun heq : k' = k => hnodup.1 (heq ▸ hk')]
      exact hfree k' (List.mem_cons_of_mem _ hk')
    obtain ⟨m, hm, hentry, hrest⟩ := ih hnodup.2 hfree'
    refine ⟨m, by rw [mergeLoop, if_neg (by simp [hk]), hm], ?_, ?_⟩
    · intro entry hmem
      rcases List.mem_cons.mp hmem with rfl | hmem
      · rw [hrest k hnodup.1, Function.update_self]
      · exact hentry entry hmem
    · intro k' hk'
      rw [List.map_cons, List.mem_cons, not_or] at hk'
      rw [hrest k' hk'.2, Function.update_of_ne hk'.1]

omit [DecidableEq Name] in
theorem Merged.append {dest m m' : Methods Name Method} {t t' : List (Name × Method)} (h : Merged dest t m)
    (h' : Merged m t' m') (hdisjoint : ∀ k ∈ t.map Prod.fst, k ∉ t'.map Prod.fst) : Merged dest (t ++ t') m' where
  entry entry hentry := by
    rcases List.mem_append.mp hentry with hentry | hentry
    · rw [h'.rest _ (hdisjoint _ (List.mem_map_of_mem hentry)), h.entry entry hentry]
    · exact h'.entry entry hentry
  rest k hk := by
    rw [List.map_append, List.mem_append, not_or] at hk
    rw [h'.rest k hk.2, h.rest k hk.1]

theorem mergeSafe_of_free (pairs : Pairs Name Method) {dest : Methods Name Method} (t : Option (List (Name × Method)))
    (hnodup : ((t.getD []).map Prod.fst).Nodup) (hfree : ∀ k ∈ (t.getD []).map Prod.fst, dest k = none) :
    ∃ m, mergeSafe pairs dest t = (m, true) ∧ Merged dest (t.getD []) m := by
  cases t with
  | none => exact ⟨dest, rfl, by simp, fun _ _ => rfl⟩
  | some t =>
  have hperm := pairs.perm t
  obtain ⟨m, hm, hmerged⟩ := mergeLoop_of_free ((hperm.map Prod.fst).nodup_iff.mpr hnodup)
    fun k hk => hfree k ((hperm.map Prod.fst).mem_iff.mp hk)
  exact ⟨m, hm, hmerged.of_perm hperm⟩

/-- The first name that `pairs` gives is already taken. -/
theorem mergeSafe_of_taken (pairs : Pairs Name Method) {dest : Methods Name Method} {t : List (Name × Method)}
    (hne : t ≠ []) (htaken : ∀ k ∈ t.map Prod.fst, (dest k).isSome) : mergeSafe pairs dest (some t) = (dest, false) := by
  have hperm := pairs.perm t
  rw [mergeSafe]
  cases horder : pairs.order t with
  | nil =>
    rw [horder] at hperm
    exact absurd hperm.nil_eq.symm hne
  | cons entry rest =>
    obtain ⟨k, v⟩ := entry
    have hmem : (k, v) ∈ t := hperm.mem_iff.mp (by simp [horder])
    rw [mergeLoop, if_pos (htaken k (List.mem_map_of_mem hmem))]

theorem cleanLoop_apply (dest : Methods Name Method) (t : List (Name × Method)) (k : Name) :
    cleanLoop dest t k = if k ∈ t.map Prod.fst then none else dest k := by
  induction t generalizing dest with
  | nil => simp [cleanLoop]
  | cons entry t ih =>
    rw [cleanLoop, List.foldl_cons, ← cleanLoop, ih]
    by_cases hk : k = entry.1
    · simp [hk]
    · rw [Function.update_of_ne hk, List.map_cons]
      simp only [List.mem_cons, hk, false_or]

theorem clean_apply (pairs : Pairs Name Method) (dest : Methods Name Method) (t : Option (List (Name × Method))) (k : Name) :
    clean pairs dest t k = if k ∈ (t.getD []).map Prod.fst then none else dest k := by
  cases t with
  | none => simp [clean]
  | some t =>
    rw [clean, cleanLoop_apply]
    simp only [((pairs.perm t).map Prod.fst).mem_iff, Option.getD_some]

end SkynetServer.Handlers
