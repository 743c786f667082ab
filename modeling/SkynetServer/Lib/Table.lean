import Mathlib.Data.List.AList

/-!
# Tables

A table of a scripting language as an association list without repeated keys. Programs walk over one table and write
to another one, or change an entry through a reference to it if there is one; the lemmas say what a table holds after
such a loop. The order of the entries is that of the walk and never matters for what a lookup finds.
-/

namespace Lib

abbrev Table (κ ν : Type) := AList fun _ : κ => ν

namespace Table

variable {κ ν α : Type} [DecidableEq κ]

/-- Change the entry of `k` if there is one. -/
def modify (table : Table κ ν) (k : κ) (f : ν → ν) : Table κ ν :=
  match table.lookup k with
  | some v => table.insert k (f v)
  | none => table

theorem lookup_modify (table : Table κ ν) (k k' : κ) (f : ν → ν) :
    (table.modify k f).lookup k' = if k' = k then (table.lookup k').map f else table.lookup k' := by
  unfold modify
  by_cases hk : k' = k
  · subst hk
    rw [if_pos rfl]
    cases h : table.lookup k' with
    | none => exact h
    | some v => exact AList.lookup_insert _
  · rw [if_neg hk]
    cases table.lookup k with
    | none => rfl
    | some v => exact AList.lookup_insert_ne hk

@[simp] theorem mem_modify (table : Table κ ν) (k k' : κ) (f : ν → ν) : k' ∈ table.modify k f ↔ k' ∈ table := by
  rw [← AList.lookup_isSome, ← AList.lookup_isSome, lookup_modify]
  split <;> simp

theorem lookup_foldl_modify (key : α → κ) (f : ν → ν) (as : List α) (hnodup : (as.map key).Nodup)
    (table : Table κ ν) (k : κ) :
    (as.foldl (fun table a => table.modify (key a) f) table).lookup k =
      if k ∈ as.map key then (table.lookup k).map f else table.lookup k := by
  induction as generalizing table with
  | nil => simp
  | cons a as ih =>
    rw [List.map_cons, List.nodup_cons] at hnodup
    rw [List.foldl_cons, ih hnodup.2, lookup_modify]
    by_cases hk : k = key a
    · subst hk
      simp [hnodup.1]
    · simp [hk]

theorem mem_foldl_insert (key : α → κ) (value : α → ν) (as : List α) (table : Table κ ν) (k : κ) :
    k ∈ as.foldl (fun table a => table.insert (key a) (value a)) table ↔ k ∈ as.map key ∨ k ∈ table := by
  induction as generalizing table with
  | nil => simp
  | cons a as ih =>
    rw [List.foldl_cons, ih, AList.mem_insert, List.map_cons, List.mem_cons]
    tauto

theorem lookup_of_erase {table : Table κ ν} {k k' : κ} {v : ν} (h : AList.lookup k' (table.erase k) = some v) :
    table.lookup k' = some v := by
  by_cases hk : k' = k
  · subst hk
    cases (AList.lookup_erase k' table).symm.trans h
  · exact (AList.lookup_erase_ne hk).symm.trans h

theorem lookup_insert_cases {table : Table κ ν} {k k' : κ} {v v' : ν}
    (h : AList.lookup k' (table.insert k v) = some v') : (k' = k ∧ v' = v) ∨ (k' ≠ k ∧ table.lookup k' = some v') := by
  by_cases hk : k' = k
  · subst hk
    rw [AList.lookup_insert] at h
    exact .inl ⟨rfl, (Option.some.inj h).symm⟩
  · rw [AList.lookup_insert_ne hk] at h
    exact .inr ⟨hk, h⟩

theorem lookup_foldl_erase (key : α → κ) (as : List α) (table : Table κ ν) (k : κ) :
    (as.foldl (fun table a => table.erase (key a)) table).lookup k =
      if k ∈ as.map key then none else table.lookup k := by
  induction as generalizing table with
  | nil => simp
  | cons a as ih =>
    rw [List.foldl_cons, ih]
    by_cases hk : k = key a
    · subst hk
      simp
    · rw [AList.lookup_erase_ne hk]
      simp [hk]

/-- How many values of a table have a property. -/
def count (p : ν → Bool) (table : Table κ ν) : Nat := table.entries.countP fun entry => p entry.2

theorem countP_kerase (p : ν → Bool) (k : κ) (entries : List (Sigma fun _ : κ => ν)) :
    entries.countP (fun entry => p entry.2) =
      (entries.kerase k).countP (fun entry => p entry.2) + ((entries.dlookup k).filter p).toList.length := by
  induction entries with
  | nil => rfl
  | cons entry entries ih =>
    by_cases hk : k = entry.1
    · rw [List.kerase_cons_eq hk, List.countP_cons]
      obtain ⟨k', v⟩ := entry
      obtain rfl : k = k' := hk
      cases hv : p v <;> simp [hv, Option.filter]
    · rw [List.kerase_cons_ne hk, List.countP_cons, List.countP_cons, ih]
      obtain ⟨k', v⟩ := entry
      rw [List.dlookup_cons_ne _ _ hk]
      omega

theorem count_erase (p : ν → Bool) (table : Table κ ν) (k : κ) :
    table.count p = count p (table.erase k) + ((table.lookup k).filter p).toList.length :=
  countP_kerase p k table.entries

theorem count_insert (p : ν → Bool) (table : Table κ ν) (k : κ) (v : ν) :
    count p (table.insert k v) = count p (table.erase k) + if p v then 1 else 0 :=
  List.countP_cons

theorem count_erase_of_lookup (p : ν → Bool) {table : Table κ ν} {k : κ} {v : ν} (h : table.lookup k = some v) :
    table.count p = count p (table.erase k) + if p v then 1 else 0 := by
  rw [count_erase p table k, h]
  cases hv : p v <;> simp [hv, Option.filter]

theorem count_insert_of_lookup (p : ν → Bool) {table : Table κ ν} {k : κ} (v : ν) (h : table.lookup k = none) :
    count p (table.insert k v) = table.count p + if p v then 1 else 0 := by
  rw [count_insert, count_erase p table k, h]
  rfl

theorem count_modify (p : ν → Bool) {f : ν → ν} (hf : ∀ v, p (f v) = p v) (table : Table κ ν) (k : κ) :
    count p (table.modify k f) = table.count p := by
  unfold modify
  cases hlookup : table.lookup k with
  | none => rfl
  | some v => rw [count_insert, count_erase_of_lookup p hlookup, hf]

end Table

theorem update_some_cases {κ ν : Type} [DecidableEq κ] {f : κ → Option ν} {k k' : κ} {a b : ν}
    (h : Function.update f k (some a) k' = some b) : (k' = k ∧ b = a) ∨ (k' ≠ k ∧ f k' = some b) := by
  by_cases hk : k' = k
  · subst hk
    rw [Function.update_self] at h
    exact .inl ⟨rfl, (Option.some.inj h).symm⟩
  · rw [Function.update_of_ne hk] at h
    exact .inr ⟨hk, h⟩

theorem foldl_prod {α β γ : Type} (f : β → α → β) (g : γ → α → γ) (as : List α) (b : β) (c : γ) :
    as.foldl (fun (p : β × γ) a => (f p.1 a, g p.2 a)) (b, c) = (as.foldl f b, as.foldl g c) := by
  induction as generalizing b c with
  | nil => rfl
  | cons a as ih => exact ih _ _

end Lib
