import SkynetServer.Map.Quadtree

/-!
# The quadtree as a flat map

What the tree is for: it remembers, for each object, where it is, and finds the objects of a rectangle. The abstract
machine is a map from ids to entries, with the leaf that `insert` named beside each entry, because `remove` may be
called there. Every run of the tree is a run of this machine with the same outcomes, and every query reports what the
machine holds. Which points the machine takes is a parameter of it: the tree takes those that pass its test, and where no
coordinate is NaN these are the points of the closed box.
-/

namespace SkynetServer.Map

open Lib

/-- `insert` at the root; `remove` at the subtree that `place` leads to (the root, or a leaf named by `insert`). -/
inductive Op (Id Race : Type) where
  | insert (id : Id) (race : Race) (x y : Number)
  | remove (place : List Quadrant) (id : Id)

/-- What a call returns: the leaf, or whether there was something to remove. -/
inductive Outcome where
  | inserted (leaf : Option (List Quadrant))
  | removed (done : Bool)
deriving DecidableEq

/-- The abstract machine: for each stored id its entry and its leaf. -/
abbrev FlatMap (Id Race : Type) := Id → Option (Entry Race × List Quadrant)

variable {Id Race : Type} [DecidableEq Id]

/-- What a call does to the flat map of the points that are `inside`. -/
inductive FlatStep (inside : Number → Number → Prop) (flat : FlatMap Id Race) :
    Op Id Race → Outcome → FlatMap Id Race → Prop where
  | insert {id : Id} {race : Race} {x y : Number} (leaf : List Quadrant) (hin : inside x y) :
      FlatStep inside flat (.insert id race x y) (.inserted (some leaf))
        (Function.update flat id (some (⟨race, x, y⟩, leaf)))
  | outside {id : Id} {race : Race} {x y : Number} (hout : ¬ inside x y) :
      FlatStep inside flat (.insert id race x y) (.inserted none) flat
  | remove {place : List Quadrant} {id : Id} {entry : Entry Race} {leaf : List Quadrant}
      (hstored : flat id = some (entry, leaf)) (hplace : place <+: leaf) :
      FlatStep inside flat (.remove place id) (.removed true) (Function.update flat id none)
  | absent {place : List Quadrant} {id : Id}
      (habsent : ∀ entry leaf, flat id = some (entry, leaf) → ¬ place <+: leaf) :
      FlatStep inside flat (.remove place id) (.removed false) flat

/-- A run of the flat map, with the outcome of each call. -/
inductive FlatRun (inside : Number → Number → Prop) :
    FlatMap Id Race → List (Op Id Race × Outcome) → FlatMap Id Race → Prop where
  | nil (flat : FlatMap Id Race) : FlatRun inside flat [] flat
  | cons {flat flat' final : FlatMap Id Race} {op : Op Id Race} {outcome : Outcome}
      {rest : List (Op Id Race × Outcome)} (hstep : FlatStep inside flat op outcome flat')
      (hrest : FlatRun inside flat' rest final) : FlatRun inside flat ((op, outcome) :: rest) final

/-- The coordinates of an insertion are not NaN. -/
def Op.NoNan : Op Id Race → Prop
  | .insert _ _ x y => ¬ x.IsNan ∧ ¬ y.IsNan
  | .remove _ _ => True

/-- The test may be replaced by another one with the same outcome on the coordinates of the run. -/
theorem FlatRun.congr {inside inside' : Number → Number → Prop} {flat final : FlatMap Id Race}
    {run : List (Op Id Race × Outcome)} (hsame : ∀ x y, ¬ x.IsNan → ¬ y.IsNan → (inside x y ↔ inside' x y))
    (h : FlatRun inside flat run final) (hnan : ∀ op ∈ run.map Prod.fst, op.NoNan) : FlatRun inside' flat run final := by
  induction h with
  | nil flat => exact .nil flat
  | cons hstep hrest ih =>
    rw [List.map_cons, List.forall_mem_cons] at hnan
    refine .cons ?_ (ih hnan.2)
    cases hstep with
    | insert leaf hin => exact .insert leaf ((hsame _ _ hnan.1.1 hnan.1.2).mp hin)
    | outside hout => exact .outside fun hin => hout ((hsame _ _ hnan.1.1 hnan.1.2).mpr hin)
    | remove hstored hplace => exact .remove hstored hplace
    | absent habsent => exact .absent habsent

namespace Quadtree

/-- One call on the tree. -/
def apply (tree : Quadtree Id Race) : Op Id Race → Quadtree Id Race × Outcome
  | .insert id race x y =>
    match tree.insert id race x y with
    | some (place, tree') => (tree', .inserted (some place))
    | none => (tree, .inserted none)
  | .remove place id =>
    match tree.removeAt id place with
    | some tree' => (tree', .removed true)
    | none => (tree, .removed false)

def run : Quadtree Id Race → List (Op Id Race) → Quadtree Id Race × List (Op Id Race × Outcome)
  | tree, [] => (tree, [])
  | tree, op :: ops =>
    let (tree', outcome) := tree.apply op
    let (final, trace) := tree'.run ops
    (final, (op, outcome) :: trace)

/-- An object is only inserted while nothing is stored under its id. -/
def Fresh (tree : Quadtree Id Race) : Op Id Race → Prop
  | .insert id _ _ _ => ∀ path entry, ¬ tree.Stored path id entry
  | .remove _ _ => True

def FreshInserts (tree : Quadtree Id Race) (ops : List (Op Id Race)) : Prop :=
  ∀ before op after, ops = before ++ op :: after → (tree.run before).1.Fresh op

theorem freshInserts_nil (tree : Quadtree Id Race) : tree.FreshInserts [] := by
  intro before op after hops
  simp at hops

theorem freshInserts_cons {tree : Quadtree Id Race} {op : Op Id Race} {ops : List (Op Id Race)} :
    tree.FreshInserts (op :: ops) ↔ tree.Fresh op ∧ (tree.apply op).1.FreshInserts ops := by
  constructor
  · intro h
    refine ⟨h [] op ops rfl, fun before op' after hops => ?_⟩
    exact h (op :: before) op' after (by rw [hops]; rfl)
  · rintro ⟨hop, hrest⟩ before op' after hops
    cases before with
    | nil =>
      obtain ⟨rfl, -⟩ := List.cons.inj hops
      exact hop
    | cons first before =>
      obtain ⟨rfl, htail⟩ := List.cons.inj hops
      exact hrest before op' after htail

/-- The tree stores what the flat map holds. -/
structure Refines (box : Box) (tree : Quadtree Id Race) (flat : FlatMap Id Race) : Prop where
  wellFormed : tree.WellFormed
  box_eq : tree.box = box
  stored : ∀ path id entry, tree.Stored path id entry ↔ flat id = some (entry, path)

theorem Refines.unique {box : Box} {tree : Quadtree Id Race} {flat : FlatMap Id Race} (h : Refines box tree flat) :
    tree.Unique := by
  intro id path path' entry entry' hstored hstored'
  have heq := ((h.stored _ _ _).mp hstored).symm.trans ((h.stored _ _ _).mp hstored')
  exact (Prod.mk.inj (Option.some.inj heq)).2

theorem apply_refines {box : Box} {tree : Quadtree Id Race} {flat : FlatMap Id Race} (h : Refines box tree flat)
    {op : Op Id Race} (hfresh : tree.Fresh op) :
    ∃ flat', FlatStep box.Inside flat op (tree.apply op).2 flat' ∧ Refines box (tree.apply op).1 flat' := by
  cases op with
  | insert id race x y =>
    cases hins : tree.insert id race x y with
    | none =>
      simp only [apply, hins]
      have hout := insert_none h.wellFormed hins
      rw [h.box_eq] at hout
      exact ⟨flat, .outside hout, h⟩
    | some result =>
      obtain ⟨leaf, tree'⟩ := result
      simp only [apply, hins]
      have hinserted := insert_some h.wellFormed hins
      refine ⟨_, .insert leaf (h.box_eq ▸ hinserted.inside), hinserted.wellFormed,
        hinserted.box_eq.trans h.box_eq, fun path id' entry => ?_⟩
      rw [hinserted.stored]
      by_cases hid : id' = id
      · subst hid
        rw [Function.update_self]
        have habsent := hfresh path entry
        constructor
        · rintro (⟨rfl, -, rfl⟩ | ⟨-, hstored⟩)
          · rfl
          · exact absurd hstored habsent
        · intro heq
          obtain ⟨rfl, rfl⟩ := Prod.mk.inj (Option.some.inj heq)
          exact .inl ⟨rfl, rfl, rfl⟩
      · rw [Function.update_of_ne hid, ← h.stored]
        simp [hid]
  | remove place id =>
    cases hrem : tree.removeAt id place with
    | none =>
      simp only [apply, hrem]
      refine ⟨flat, .absent fun entry leaf hflat hplace => ?_, h⟩
      exact removeAt_none h.wellFormed hrem hplace entry ((h.stored _ _ _).mpr hflat)
    | some tree' =>
      simp only [apply, hrem]
      obtain ⟨leaf, hplace, hremoved⟩ := removeAt_some h.wellFormed hrem
      obtain ⟨entry, hentry⟩ := hremoved.was_stored
      have hflat := (h.stored _ _ _).mp hentry
      refine ⟨_, .remove hflat hplace, hremoved.wellFormed, hremoved.box_eq.trans h.box_eq,
        fun path id' entry' => ?_⟩
      rw [hremoved.stored, h.stored]
      by_cases hid : id' = id
      · subst hid
        rw [Function.update_self, hflat]
        simp only [and_true, Option.some.injEq, Prod.mk.injEq, reduceCtorEq, iff_false, not_and]
        rintro hpath - rfl
        exact hpath rfl
      · rw [Function.update_of_ne hid]
        simp [hid]

theorem run_refines {box : Box} {tree : Quadtree Id Race} {flat : FlatMap Id Race} (ops : List (Op Id Race))
    (h : Refines box tree flat) (hfresh : tree.FreshInserts ops) :
    ∃ final, FlatRun box.Inside flat (tree.run ops).2 final ∧ Refines box (tree.run ops).1 final := by
  induction ops generalizing tree flat with
  | nil => exact ⟨flat, .nil flat, h⟩
  | cons op ops ih =>
    obtain ⟨hop, hrest⟩ := freshInserts_cons.mp hfresh
    obtain ⟨flat', hstep, h'⟩ := apply_refines h hop
    obtain ⟨final, hrun, hfinal⟩ := ih h' hrest
    exact ⟨final, .cons hstep hrun, hfinal⟩

theorem refines_new (box : Box) : Refines box (new box : Quadtree Id Race) fun _ => none where
  wellFormed := wellFormed_genChildren _ _
  box_eq := box_genChildren _ _
  stored := fun path id entry => by simp [new, not_stored_genChildren]

theorem map_fst_run (tree : Quadtree Id Race) (ops : List (Op Id Race)) : (tree.run ops).2.map (·.1) = ops := by
  induction ops generalizing tree with
  | nil => rfl
  | cons op ops ih => simp [run, ih]

/-- **The flat map.** Whatever calls are made on the tree of a box, with coordinates that are not NaN, their outcomes are
those of a flat map of the closed box, and a query afterwards appends each object the map holds strictly inside the
rectangle, other than the one asked for, exactly once and as it is stored. -/
theorem run_refines_flatMap (box : Box) (hx : box.left ≤ box.right) (hy : box.bottom ≤ box.top) (ops : List (Op Id Race))
    (hnan : ∀ op ∈ ops, op.NoNan) (hfresh : (new box).FreshInserts ops) :
    ((new box).run ops).2.map (·.1) = ops ∧
    ∃ flat, FlatRun box.Contains (fun _ => none) ((new box).run ops).2 flat ∧
      ∀ id left bottom right top result, ∃ found,
        ((new box).run ops).1.query id left bottom right top result = result ++ found ∧
        (found.map (·.id)).Nodup ∧
        ∀ f, f ∈ found ↔ f.id ≠ id ∧ (∃ leaf, flat f.id = some (f.pos, leaf)) ∧ f.race = f.pos.race ∧
          left < f.pos.x ∧ f.pos.x < right ∧ bottom < f.pos.y ∧ f.pos.y < top := by
  obtain ⟨flat, hrun, href⟩ := run_refines ops (refines_new box) hfresh
  have hclosed : FlatRun box.Contains (fun _ => none) ((new box).run ops).2 flat :=
    hrun.congr (fun x y => Box.inside_iff_contains hx hy) (by rwa [map_fst_run])
  refine ⟨map_fst_run _ _, flat, hclosed, fun id left bottom right top result => ?_⟩
  refine ⟨_, query_eq_append id left bottom right top _ result, nodup_query href.wellFormed href.unique, fun f => ?_⟩
  rw [mem_query href.wellFormed]
  simp only [href.stored, Selected]
  constructor
  · rintro ⟨leaf, hflat, hrace, hne, hsel⟩
    exact ⟨hne, ⟨leaf, hflat⟩, hrace, hsel⟩
  · rintro ⟨hne, ⟨leaf, hflat⟩, hrace, hsel⟩
    exact ⟨leaf, hflat, hrace, hne, hsel⟩

/-- An object on the center of the map, which lies on the border of all four quadrants, and its removal. -/
theorem run_refines_flatMap_center :
    ∃ flat, FlatRun (Box.Contains ⟨0, 0, 100, 100⟩) (fun _ => none)
      ((new ⟨0, 0, 100, 100⟩ : Quadtree Nat Nat).run [.insert 1 5 50 50, .remove [] 2, .remove [] 1]).2 flat := by
  have hnan : ∀ op ∈ ([.insert 1 5 50 50, .remove [] 2, .remove [] 1] : List (Op Nat Nat)), op.NoNan := by
    simp only [List.forall_mem_cons, List.not_mem_nil, false_imp_iff, implies_true, and_true]
    exact ⟨⟨by decide +kernel, by decide +kernel⟩, trivial, trivial⟩
  have hfresh : (new ⟨0, 0, 100, 100⟩ : Quadtree Nat Nat).FreshInserts [.insert 1 5 50 50, .remove [] 2, .remove [] 1] :=
    freshInserts_cons.mpr ⟨fun _ _ => not_stored_genChildren _ _ _ _ _, freshInserts_cons.mpr ⟨trivial,
      freshInserts_cons.mpr ⟨trivial, freshInserts_nil _⟩⟩⟩
  obtain ⟨-, flat, hrun, -⟩ := run_refines_flatMap ⟨0, 0, 100, 100⟩ (by decide +kernel) (by decide +kernel) _ hnan hfresh
  exact ⟨flat, hrun⟩

/-- NaN is taken, although it is in no box. -/
theorem not_run_refines_flatMap_nan :
    ¬ ∀ (box : Box), box.left ≤ box.right → box.bottom ≤ box.top → ∀ ops : List (Op Nat Nat), (new box).FreshInserts ops →
      ∃ flat, FlatRun box.Contains (fun _ => none) ((new box).run ops).2 flat := by
  intro hall
  have hfresh : (new ⟨0, 0, 100, 100⟩ : Quadtree Nat Nat).FreshInserts [.insert 1 5 (.double .nan) 100] :=
    freshInserts_cons.mpr ⟨fun _ _ => not_stored_genChildren _ _ _ _ _, freshInserts_nil _⟩
  obtain ⟨flat, hrun⟩ := hall ⟨0, 0, 100, 100⟩ (by decide +kernel) (by decide +kernel) _ hfresh
  have htaken : ((new ⟨0, 0, 100, 100⟩ : Quadtree Nat Nat).apply (.insert 1 5 (.double .nan) 100)).2 =
      .inserted (some (List.replicate 6 .topLeft)) := by decide +kernel
  simp only [run, htaken] at hrun
  cases hrun with
  | cons hstep hrest =>
    cases hstep with
    | insert leaf hin => exact absurd hin (by decide +kernel)

end Quadtree

end SkynetServer.Map
