import Mathlib.Data.List.Induction

/-!
# Lists with levels

Each member of a list has a height, and on level `i` only the members higher than `i` are seen. A member is linked on each
of its levels to the next one seen there: `nextAt` is that link, with the number of steps it covers in the whole list, or
the number of steps to the end where there is none. A search that may go as far as the end of `l` stops on level `i` at the
last member seen there, `LastAt`. What an insertion or a removal does to the links is said by the `nextAt` of an append:
members seen on the level hide what is behind them, members not seen on it only add to the distance.
-/

namespace Lib

variable {β : Type} {height : β → Nat} {i j : Nat} {l r s t : List β} {x y z : β}

/-- The first member seen on level `i` and its distance; where none is seen, the distance to the end. -/
def nextAt (height : β → Nat) (i : Nat) : List β → Option β × Nat
  | [] => (none, 0)
  | y :: l => if i < height y then (some y, 1) else ((nextAt height i l).1, (nextAt height i l).2 + 1)

@[simp] theorem nextAt_nil : nextAt height i [] = (none, 0) := rfl

theorem nextAt_cons_of_lt (h : i < height y) : nextAt height i (y :: l) = (some y, 1) := by
  rw [nextAt, if_pos h]

/-- Members that are not seen on the level only add to the distance. -/
theorem nextAt_append_of_le (h : ∀ c ∈ r, height c ≤ i) :
    nextAt height i (r ++ s) = ((nextAt height i s).1, r.length + (nextAt height i s).2) := by
  induction r with
  | nil => simp
  | cons c r ih =>
    have hc : ¬ i < height c := Nat.not_lt.mpr (h c List.mem_cons_self)
    have ih := ih fun c hc => h c (List.mem_cons_of_mem _ hc)
    rw [List.cons_append, nextAt, if_neg hc, ih, List.length_cons]
    exact Prod.ext rfl (by dsimp only; omega)

/-- Members seen on the level hide what is behind them. -/
theorem nextAt_append_of_lt (hy : y ∈ r) (h : i < height y) : nextAt height i (r ++ s) = nextAt height i (r ++ t) := by
  induction r with
  | nil => simp at hy
  | cons c r ih =>
    rw [List.cons_append, List.cons_append, nextAt, nextAt]
    by_cases hc : i < height c
    · rw [if_pos hc, if_pos hc]
    · have hne : y ≠ c := fun heq => hc (heq ▸ h)
      rw [if_neg hc, if_neg hc, ih ((List.mem_cons.mp hy).resolve_left hne)]

theorem nextAt_of_le (h : ∀ c ∈ l, height c ≤ i) : nextAt height i l = (none, l.length) := by
  have := nextAt_append_of_le h (s := [])
  simpa using this

theorem nextAt_fst_eq_none_iff : (nextAt height i l).1 = none ↔ ∀ c ∈ l, height c ≤ i := by
  induction l with
  | nil => simp
  | cons c l ih =>
    rw [nextAt]
    by_cases hc : i < height c
    · rw [if_pos hc]
      exact iff_of_false (Option.some_ne_none c) fun h => Nat.not_lt.mpr (h c List.mem_cons_self) hc
    · rw [if_neg hc, List.forall_mem_cons]
      exact ih.trans ⟨fun h => ⟨Nat.not_lt.mp hc, h⟩, fun h => h.2⟩

theorem nextAt_eq_some (h : (nextAt height i l).1 = some y) :
    ∃ r s, l = r ++ y :: s ∧ i < height y ∧ (∀ c ∈ r, height c ≤ i) ∧ (nextAt height i l).2 = r.length + 1 := by
  induction l with
  | nil => simp at h
  | cons c l ih =>
    rw [nextAt] at h ⊢
    by_cases hc : i < height c
    · rw [if_pos hc] at h ⊢
      obtain rfl : c = y := Option.some.inj h
      exact ⟨[], l, rfl, hc, by simp, rfl⟩
    · rw [if_neg hc] at h ⊢
      obtain ⟨r, s, rfl, hy, hr, hd⟩ := ih h
      refine ⟨c :: r, s, rfl, hy, ?_, by simp [hd]⟩
      exact List.forall_mem_cons.mpr ⟨Nat.not_lt.mp hc, hr⟩

theorem nextAt_of_lt (h : ∀ c ∈ l, i < height c) : (nextAt height i l).1 = l.head? := by
  cases l with
  | nil => rfl
  | cons y l => rw [nextAt_cons_of_lt (h y List.mem_cons_self), List.head?_cons]

theorem append_eq_append_cons {u v : List β} (h : l ++ r = u ++ x :: v) :
    (∃ s, l = u ++ x :: s ∧ v = s ++ r) ∨ ∃ s, u = l ++ s ∧ r = s ++ x :: v := by
  rcases List.append_eq_append_iff.mp h with ⟨s, hu, hr⟩ | ⟨s, hl, hv⟩
  · exact .inr ⟨s, hu, hr⟩
  · cases s with
    | nil => exact .inr ⟨[], by simpa using hl.symm, by simpa using hv.symm⟩
    | cons c s =>
      obtain ⟨rfl, rfl⟩ := List.cons.inj hv
      exact .inl ⟨s, hl, rfl⟩

theorem name_ne_of_mem {ι : Type} {name : β → ι} (hnodup : ((l ++ r).map name).Nodup) (hx : x ∈ l) (hy : y ∈ r) :
    name x ≠ name y := by
  rw [List.map_append, List.nodup_append] at hnodup
  exact hnodup.2.2 (name x) (List.mem_map_of_mem hx) (name y) (List.mem_map_of_mem hy)

/-- Two places of a list that carry the same name are one, if no name occurs twice. -/
theorem split_unique {ι : Type} {name : β → ι} (hnodup : (l.map name).Nodup) {u v u' v' : List β}
    (h : l = u ++ x :: v) (h' : l = u' ++ y :: v') (hname : name x = name y) : u = u' ∧ x = y ∧ v = v' := by
  rw [h] at hnodup h'
  rcases append_eq_append_cons h' with ⟨s, rfl, -⟩ | ⟨s, rfl, hv⟩
  · exact absurd hname.symm (name_ne_of_mem hnodup (by simp) (by simp))
  · cases s with
    | nil =>
      obtain ⟨rfl, rfl⟩ := List.cons.inj hv
      exact ⟨(List.append_nil u).symm, rfl, rfl⟩
    | cons c s =>
      obtain ⟨rfl, rfl⟩ := List.cons.inj hv
      rw [← List.singleton_append, ← List.append_assoc] at hnodup
      exact absurd hname (name_ne_of_mem hnodup (by simp) (by simp))

/-- `y` is the last member of `l` seen on level `i`, and `t` is what is behind it. -/
structure LastAt (height : β → Nat) (i : Nat) (l : List β) (y : β) (t : List β) : Prop where
  seen : i < height y
  behind : ∀ c ∈ t, height c ≤ i
  split : ∃ u, l = u ++ y :: t

theorem LastAt.mem (h : LastAt height i l y t) : y ∈ l := by
  obtain ⟨u, rfl⟩ := h.split
  simp

theorem LastAt.length_lt (h : LastAt height i l y t) : t.length < l.length := by
  obtain ⟨u, rfl⟩ := h.split
  simp only [List.length_append, List.length_cons]
  omega

theorem LastAt.append_left (h : LastAt height i l y t) (u : List β) : LastAt height i (u ++ l) y t := by
  obtain ⟨v, rfl⟩ := h.split
  exact ⟨h.seen, h.behind, u ++ v, (List.append_assoc u v _).symm⟩

/-- From the last member seen on a level the search goes on at a lower one. -/
theorem LastAt.trans (h : LastAt height j l y t) (h' : LastAt height i (y :: t) z r) : LastAt height i l z r := by
  obtain ⟨u, rfl⟩ := h.split
  exact h'.append_left u

/-- There is one last member: whatever is behind it is not seen. -/
theorem LastAt.unique (h : LastAt height i l y t) (h' : LastAt height i l z r) : y = z ∧ t = r := by
  obtain ⟨u, rfl⟩ := h.split
  obtain ⟨v, hv⟩ := h'.split
  rcases List.append_eq_append_iff.mp hv with ⟨a, rfl, ha⟩ | ⟨a, rfl, ha⟩
  · cases a with
    | nil => simpa using ha
    | cons b a =>
      obtain ⟨rfl, rfl⟩ := List.cons.inj ha
      exact absurd h'.seen (Nat.not_lt.mpr (h.behind z (by simp)))
  · cases a with
    | nil =>
      have := List.cons.inj ha
      exact ⟨this.1.symm, this.2.symm⟩
    | cons b a =>
      obtain ⟨rfl, rfl⟩ := List.cons.inj ha
      exact absurd h.seen (Nat.not_lt.mpr (h'.behind y (by simp)))

theorem LastAt.behind_eq_nil (h : LastAt height i l y t) (hall : ∀ c ∈ l, i < height c) : t = [] := by
  obtain ⟨u, rfl⟩ := h.split
  refine List.eq_nil_iff_forall_not_mem.mpr fun c hc => ?_
  exact absurd (hall c (by simp [hc])) (Nat.not_lt.mpr (h.behind c hc))

end Lib
