import Mathlib.Data.List.AList
import SkynetServer.Lib.Number

/-!
# The quadtree of a map

`quadtree.lua`: a tree of boxes, six levels deep, whose leaves hold the objects of the map. A Lua table indexed by
object ids is an `AList`, whose entries are the pairs in the order in which `pairs` happens to yield them. A subtree is
named by the way to it from the root, so the leaf that `insert` returns is a list of quadrants. Coordinates are numbers of
Lua, NaN and the infinities among them; the test of `insert` lets NaN pass.
-/

namespace SkynetServer.Map

open Lib

def maxDepth : Nat := 6

structure Box where
  left : Number
  bottom : Number
  right : Number
  top : Number
deriving DecidableEq

/-- `not (x < left or x > right or y > top or y < bottom)`. -/
def Box.Inside (box : Box) (x y : Number) : Prop :=
  ¬ (x < box.left ∨ x > box.right ∨ y > box.top ∨ y < box.bottom)

instance (box : Box) (x y : Number) : Decidable (box.Inside x y) := inferInstanceAs (Decidable (¬ _))

/-- The closed box. -/
def Box.Contains (box : Box) (x y : Number) : Prop :=
  box.left ≤ x ∧ x ≤ box.right ∧ box.bottom ≤ y ∧ y ≤ box.top

instance (box : Box) (x y : Number) : Decidable (box.Contains x y) := inferInstanceAs (Decidable (_ ∧ _))

/-- The test of `insert` is that of the closed box, where the coordinates are not NaN. -/
theorem Box.inside_iff_contains {box : Box} (hx : box.left ≤ box.right) (hy : box.bottom ≤ box.top) {x y : Number}
    (hxnan : ¬ x.IsNan) (hynan : ¬ y.IsNan) : box.Inside x y ↔ box.Contains x y := by
  obtain ⟨hleft, hright⟩ := Number.not_isNan_of_le hx
  obtain ⟨hbottom, htop⟩ := Number.not_isNan_of_le hy
  simp only [Inside, Contains, not_or, gt_iff_lt]
  rw [Number.not_lt hleft hxnan, Number.not_lt hxnan hright, Number.not_lt hynan htop, Number.not_lt hbottom hynan]
  tauto

/-- What a leaf stores under an object's id. -/
structure Entry (Race : Type) where
  race : Race
  x : Number
  y : Number
deriving DecidableEq

/-- The places of `children`, in the order of the table. -/
inductive Quadrant where
  | topLeft
  | topRight
  | bottomLeft
  | bottomRight
deriving DecidableEq

def quadrants : List Quadrant := [.topLeft, .topRight, .bottomLeft, .bottomRight]

theorem mem_quadrants (q : Quadrant) : q ∈ quadrants := by
  cases q <;> decide

theorem nodup_quadrants : quadrants.Nodup := by decide

/-- A node has the table `object` like a leaf, but nothing is ever stored there. -/
inductive Quadtree (Id Race : Type) where
  | leaf (box : Box) (object : AList fun _ : Id => Entry Race)
  | node (box : Box) (object : AList fun _ : Id => Entry Race) (children : Quadrant → Quadtree Id Race)

/-- An element of the result of a query; `pos` is the stored entry itself. -/
structure Found (Id Race : Type) where
  id : Id
  race : Race
  pos : Entry Race
deriving DecidableEq

def Box.centerx (box : Box) : Number := (box.left + box.right).half

def Box.centery (box : Box) : Number := (box.top + box.bottom).half

/-- The boxes of `tree1` to `tree4`. -/
def Box.child (box : Box) : Quadrant → Box
  | .topLeft => ⟨box.left, box.centery, box.centerx, box.top⟩
  | .topRight => ⟨box.centerx, box.centery, box.right, box.top⟩
  | .bottomLeft => ⟨box.left, box.bottom, box.centerx, box.centery⟩
  | .bottomRight => ⟨box.centerx, box.bottom, box.right, box.centery⟩

namespace Quadtree

variable {Id Race : Type}

/-- `genChildren` of a new tree, with `levels` left to `MAX_DEPTH`. -/
def genChildren : Nat → Box → Quadtree Id Race
  | 0, box => leaf box ∅
  | levels + 1, box => node box ∅ fun q => genChildren levels (box.child q)

/-- The tree of a map: `quadtree.new` followed by `genChildren`. -/
def new (box : Box) : Quadtree Id Race := genChildren maxDepth box

def box : Quadtree Id Race → Box
  | leaf box _ => box
  | node box _ _ => box

variable [DecidableEq Id]

/-- The way to the leaf that took the object, and the tree with it. -/
def insert (id : Id) (race : Race) (x y : Number) : Quadtree Id Race → Option (List Quadrant × Quadtree Id Race)
  | leaf box object =>
    if box.Inside x y then some ([], leaf box (object.insert id ⟨race, x, y⟩)) else none
  | node box object children =>
    if box.Inside x y then
      quadrants.findSome? fun q =>
        ((children q).insert id race x y).map fun (path, child) =>
          (q :: path, node box object (Function.update children q child))
    else none

/-- The tree without the object; nothing where the source returns nothing. A tree that has objects of its own does
not look at its children. -/
def remove (id : Id) : Quadtree Id Race → Option (Quadtree Id Race)
  | leaf box object =>
    if object.entries.length > 0 then
      if id ∈ object then some (leaf box (object.erase id)) else none
    else none
  | node box object children =>
    if object.entries.length > 0 then
      if id ∈ object then some (node box (object.erase id) children) else none
    else
      quadrants.findSome? fun q =>
        ((children q).remove id).map fun child => node box object (Function.update children q child)

/-- `remove` called on the subtree at the end of a way. -/
def removeAt (id : Id) : List Quadrant → Quadtree Id Race → Option (Quadtree Id Race)
  | [], tree => tree.remove id
  | _ :: _, leaf _ _ => none
  | q :: path, node box object children =>
    (removeAt id path (children q)).map fun child => node box object (Function.update children q child)

def query (id : Id) (left bottom right top : Number) : Quadtree Id Race → List (Found Id Race) → List (Found Id Race)
  | leaf box object, result =>
    if left > box.right ∨ right < box.left ∨ top < box.bottom ∨ bottom > box.top then result
    else
      result ++ (object.entries.filter fun kv =>
        kv.1 ≠ id ∧ kv.2.x > left ∧ kv.2.x < right ∧ kv.2.y < top ∧ kv.2.y > bottom).map fun kv =>
          ⟨kv.1, kv.2.race, kv.2⟩
  | node box _ children, result =>
    if left > box.right ∨ right < box.left ∨ top < box.bottom ∨ bottom > box.top then result
    else quadrants.foldl (fun result q => (children q).query id left bottom right top result) result

/-! ### What is stored -/

/-- The leaf at the end of `path` stores `entry` under `id`. -/
def Stored : Quadtree Id Race → List Quadrant → Id → Entry Race → Prop
  | leaf _ object, path, id, entry => path = [] ∧ object.lookup id = some entry
  | node _ _ children, path, id, entry => ∃ q rest, path = q :: rest ∧ (children q).Stored rest id entry

/-- The boxes of the children cover their parent, only leaves hold objects, and every object lies in all the boxes
around it. -/
def WellFormed : Quadtree Id Race → Prop
  | leaf box object => ∀ id entry, object.lookup id = some entry → box.Inside entry.x entry.y
  | node box object children => object = ∅ ∧ (∀ q, (children q).WellFormed) ∧
    (∀ x y, box.Inside x y → ∃ q, (children q).box.Inside x y) ∧
    ∀ q path id entry, (children q).Stored path id entry → box.Inside entry.x entry.y

/-- A node is well formed with one child replaced by one of the same box, when what is new in it lies in the node. -/
theorem wellFormed_update {box : Box} {object : AList fun _ : Id => Entry Race} {children : Quadrant → Quadtree Id Race}
    {q : Quadrant} {child : Quadtree Id Race} (h : (node box object children).WellFormed) (hchild : child.WellFormed)
    (hbox : child.box = (children q).box)
    (hnew : ∀ path id entry, child.Stored path id entry →
      box.Inside entry.x entry.y ∨ (children q).Stored path id entry) :
    (node box object (Function.update children q child)).WellFormed := by
  obtain ⟨hempty, hchildren, hcover, hinside⟩ := h
  refine ⟨hempty, fun q' => ?_, fun x y hxy => ?_, fun q' path id entry hstored => ?_⟩
  · by_cases hq : q' = q
    · subst hq
      rwa [Function.update_self]
    · rw [Function.update_of_ne hq]
      exact hchildren q'
  · obtain ⟨q', hq'⟩ := hcover x y hxy
    refine ⟨q', ?_⟩
    by_cases hq : q' = q
    · subst hq
      rwa [Function.update_self, hbox]
    · rwa [Function.update_of_ne hq]
  · by_cases hq : q' = q
    · subst hq
      rw [Function.update_self] at hstored
      rcases hnew path id entry hstored with hin | hold
      · exact hin
      · exact hinside q' path id entry hold
    · rw [Function.update_of_ne hq] at hstored
      exact hinside q' path id entry hstored

theorem stored_update {box : Box} {object : AList fun _ : Id => Entry Race} {children : Quadrant → Quadtree Id Race}
    {q : Quadrant} {child : Quadtree Id Race} {path : List Quadrant} {id : Id} {entry : Entry Race} :
    (node box object (Function.update children q child)).Stored path id entry ↔
      (∃ rest, path = q :: rest ∧ child.Stored rest id entry) ∨
        path.head? ≠ some q ∧ (node box object children).Stored path id entry := by
  constructor
  · rintro ⟨q', rest, rfl, hstored⟩
    by_cases hq : q' = q
    · subst hq
      rw [Function.update_self] at hstored
      exact .inl ⟨rest, rfl, hstored⟩
    · rw [Function.update_of_ne hq] at hstored
      exact .inr ⟨by simpa using hq, q', rest, rfl, hstored⟩
  · rintro (⟨rest, rfl, hstored⟩ | ⟨hhead, q', rest, rfl, hstored⟩)
    · exact ⟨q, rest, rfl, by rwa [Function.update_self]⟩
    · exact ⟨q', rest, rfl, by rwa [Function.update_of_ne (by simpa using hhead)]⟩

theorem stored_cons {box : Box} {object : AList fun _ : Id => Entry Race} {children : Quadrant → Quadtree Id Race}
    {q : Quadrant} {rest : List Quadrant} {id : Id} {entry : Entry Race} :
    (node box object children).Stored (q :: rest) id entry ↔ (children q).Stored rest id entry := by
  simp [Stored]

/-! ### Inserting -/

/-- The outcome of a successful insert: the same boxes, and `entry` under `id` in the leaf at the end of `path`. -/
structure Inserted (tree tree' : Quadtree Id Race) (path : List Quadrant) (id : Id) (entry : Entry Race) : Prop where
  inside : tree.box.Inside entry.x entry.y
  wellFormed : tree'.WellFormed
  box_eq : tree'.box = tree.box
  stored : ∀ path' id' entry', tree'.Stored path' id' entry' ↔
    (path' = path ∧ id' = id ∧ entry' = entry) ∨ (¬ (path' = path ∧ id' = id) ∧ tree.Stored path' id' entry')

theorem lookup_insert_iff {object : AList fun _ : Id => Entry Race} {id id' : Id} {entry entry' : Entry Race} :
    (object.insert id entry).lookup id' = some entry' ↔
      (id' = id ∧ entry' = entry) ∨ (id' ≠ id ∧ object.lookup id' = some entry') := by
  by_cases hid : id' = id
  · subst hid
    rw [AList.lookup_insert]
    simp [eq_comm]
  · rw [AList.lookup_insert_ne hid]
    simp [hid]

theorem insert_none {id : Id} {race : Race} {x y : Number} {tree : Quadtree Id Race} (h : tree.WellFormed)
    (hnone : tree.insert id race x y = none) : ¬ tree.box.Inside x y := by
  induction tree with
  | leaf box object =>
    intro (hxy : box.Inside x y)
    rw [insert, if_pos hxy] at hnone
    cases hnone
  | node box object children ih =>
    intro (hxy : box.Inside x y)
    obtain ⟨-, hchildren, hcover, -⟩ := h
    obtain ⟨q, hq⟩ := hcover x y hxy
    rw [insert, if_pos hxy, List.findSome?_eq_none_iff] at hnone
    exact ih q (hchildren q) (by simpa using hnone q (mem_quadrants q)) hq

theorem insert_some {id : Id} {race : Race} {x y : Number} {tree tree' : Quadtree Id Race} {path : List Quadrant}
    (h : tree.WellFormed) (hsome : tree.insert id race x y = some (path, tree')) :
    Inserted tree tree' path id ⟨race, x, y⟩ := by
  induction tree generalizing path tree' with
  | leaf box object =>
    rw [insert] at hsome
    split at hsome
    · rename_i hxy
      obtain ⟨rfl, rfl⟩ := Prod.mk.inj (Option.some.inj hsome)
      refine ⟨hxy, fun id' entry' hlookup => ?_, rfl, fun path' id' entry' => ?_⟩
      · rcases lookup_insert_iff.mp hlookup with ⟨-, rfl⟩ | ⟨-, hlookup⟩
        · exact hxy
        · exact h id' entry' hlookup
      · simp only [Stored, lookup_insert_iff]
        tauto
    · cases hsome
  | node box object children ih =>
    rw [insert] at hsome
    split at hsome
    · rename_i hxy
      obtain ⟨q, -, hq⟩ := List.exists_of_findSome?_eq_some hsome
      obtain ⟨⟨rest, child⟩, hchild, heq⟩ := Option.map_eq_some_iff.mp hq
      obtain ⟨rfl, rfl⟩ := Prod.mk.inj heq
      have hins := ih q (h.2.1 q) hchild
      refine ⟨hxy, wellFormed_update h hins.wellFormed hins.box_eq fun path' id' entry' hstored => ?_, rfl,
        fun path' id' entry' => ?_⟩
      · rcases (hins.stored path' id' entry').mp hstored with ⟨-, -, rfl⟩ | ⟨-, hstored⟩
        · exact .inl hxy
        · exact .inr hstored
      · rw [stored_update]
        cases path' with
        | nil => simp [Stored]
        | cons q' rest' =>
          by_cases hq' : q' = q
          · subst hq'
            simp [stored_cons, hins.stored]
          · simp [stored_cons, hq', hins.stored]
    · cases hsome

/-! ### Removing -/

/-- The outcome of a successful remove of the object stored under `id` in the leaf at the end of `path`. -/
structure Removed (tree tree' : Quadtree Id Race) (path : List Quadrant) (id : Id) : Prop where
  was_stored : ∃ entry, tree.Stored path id entry
  wellFormed : tree'.WellFormed
  box_eq : tree'.box = tree.box
  stored : ∀ path' id' entry', tree'.Stored path' id' entry' ↔
    ¬ (path' = path ∧ id' = id) ∧ tree.Stored path' id' entry'

theorem lookup_erase_iff {object : AList fun _ : Id => Entry Race} {id id' : Id} {entry' : Entry Race} :
    (object.erase id).lookup id' = some entry' ↔ id' ≠ id ∧ object.lookup id' = some entry' := by
  by_cases hid : id' = id
  · subst hid
    simp
  · rw [AList.lookup_erase_ne hid]
    simp [hid]

theorem Removed.child {box : Box} {object : AList fun _ : Id => Entry Race} {children : Quadrant → Quadtree Id Race}
    {q : Quadrant} {child : Quadtree Id Race} {path : List Quadrant} {id : Id}
    (h : (node box object children).WellFormed) (hremoved : Removed (children q) child path id) :
    Removed (node box object children) (node box object (Function.update children q child)) (q :: path) id := by
  obtain ⟨entry, hentry⟩ := hremoved.was_stored
  refine ⟨⟨entry, stored_cons.mpr hentry⟩, wellFormed_update h hremoved.wellFormed hremoved.box_eq
    fun path' id' entry' hstored => .inr ((hremoved.stored _ _ _).mp hstored).2, rfl, fun path' id' entry' => ?_⟩
  rw [stored_update]
  cases path' with
  | nil => simp [Stored]
  | cons q' rest' =>
    by_cases hq' : q' = q
    · subst hq'
      simp [stored_cons, hremoved.stored]
    · simp [stored_cons, hq']

theorem remove_none {id : Id} {tree : Quadtree Id Race} (h : tree.WellFormed) (hnone : tree.remove id = none)
    (path : List Quadrant) (entry : Entry Race) : ¬ tree.Stored path id entry := by
  induction tree generalizing path with
  | leaf box object =>
    rintro ⟨-, hlookup⟩
    have hmem : id ∈ object := AList.lookup_isSome.mp (by rw [hlookup]; rfl)
    have hpos : object.entries.length > 0 := by
      refine List.length_pos_of_ne_nil fun hnil => ?_
      rw [AList.mem_keys, AList.keys, hnil] at hmem
      simp at hmem
    rw [remove, if_pos hpos, if_pos hmem] at hnone
    cases hnone
  | node box object children ih =>
    rintro ⟨q, rest, -, hstored⟩
    obtain ⟨rfl, hchildren, -⟩ := h
    rw [remove, if_neg (by simp), List.findSome?_eq_none_iff] at hnone
    exact ih q (hchildren q) (by simpa using hnone q (mem_quadrants q)) rest hstored

theorem remove_some {id : Id} {tree tree' : Quadtree Id Race} (h : tree.WellFormed)
    (hsome : tree.remove id = some tree') : ∃ path, Removed tree tree' path id := by
  induction tree generalizing tree' with
  | leaf box object =>
    rw [remove] at hsome
    split at hsome
    · split at hsome
      · rename_i hmem
        obtain rfl := Option.some.inj hsome
        obtain ⟨entry, hentry⟩ := Option.isSome_iff_exists.mp (AList.lookup_isSome.mpr hmem)
        refine ⟨[], ⟨entry, rfl, hentry⟩, fun id' entry' hlookup => h id' entry' (lookup_erase_iff.mp hlookup).2, rfl,
          fun path' id' entry' => ?_⟩
        simp only [Stored, lookup_erase_iff]
        tauto
      · cases hsome
    · cases hsome
  | node box object children ih =>
    have hempty : ¬ object.entries.length > 0 := by simp [h.1]
    rw [remove, if_neg hempty] at hsome
    obtain ⟨q, -, hq⟩ := List.exists_of_findSome?_eq_some hsome
    obtain ⟨child, hchild, rfl⟩ := Option.map_eq_some_iff.mp hq
    obtain ⟨path, hremoved⟩ := ih q (h.2.1 q) hchild
    exact ⟨q :: path, hremoved.child h⟩

theorem removeAt_none {id : Id} {tree : Quadtree Id Race} {at' : List Quadrant} (h : tree.WellFormed)
    (hnone : tree.removeAt id at' = none) {path : List Quadrant} (hpath : at' <+: path) (entry : Entry Race) :
    ¬ tree.Stored path id entry := by
  induction at' generalizing tree path with
  | nil => exact remove_none h hnone path entry
  | cons q at' ih =>
    cases tree with
    | leaf box object =>
      rintro ⟨rfl, -⟩
      simp at hpath
    | node box object children =>
      rintro ⟨q', rest, rfl, hstored⟩
      obtain ⟨rfl, hrest⟩ := List.cons_prefix_cons.mp hpath
      exact ih (h.2.1 q) (by simpa [removeAt] using hnone) hrest hstored

theorem removeAt_some {id : Id} {tree tree' : Quadtree Id Race} {at' : List Quadrant} (h : tree.WellFormed)
    (hsome : tree.removeAt id at' = some tree') : ∃ path, at' <+: path ∧ Removed tree tree' path id := by
  induction at' generalizing tree tree' with
  | nil =>
    obtain ⟨path, hremoved⟩ := remove_some h hsome
    exact ⟨path, List.nil_prefix, hremoved⟩
  | cons q at' ih =>
    cases tree with
    | leaf box object => cases hsome
    | node box object children =>
      obtain ⟨child, hchild, rfl⟩ := Option.map_eq_some_iff.mp hsome
      obtain ⟨path, hpath, hremoved⟩ := ih (h.2.1 q) hchild
      exact ⟨q :: path, List.cons_prefix_cons.mpr ⟨rfl, hpath⟩, hremoved.child h⟩

/-! ### Querying -/

theorem foldl_eq_append_flatMap {α β : Type} {f : α → List β → List β} (hf : ∀ a acc, f a acc = acc ++ f a [])
    (as : List α) (acc : List β) : as.foldl (fun acc a => f a acc) acc = acc ++ as.flatMap fun a => f a [] := by
  induction as generalizing acc with
  | nil => simp
  | cons a as ih => rw [List.foldl_cons, ih, hf a acc, List.flatMap_cons, List.append_assoc]

theorem query_eq_append (id : Id) (left bottom right top : Number) (tree : Quadtree Id Race)
    (result : List (Found Id Race)) :
    tree.query id left bottom right top result = result ++ tree.query id left bottom right top [] := by
  induction tree generalizing result with
  | leaf box object =>
    rw [query, query]
    split <;> simp
  | node box object children ih =>
    rw [query, query]
    split
    · simp
    · rw [foldl_eq_append_flatMap ih, foldl_eq_append_flatMap ih, List.nil_append]

theorem query_node {id : Id} {left bottom right top : Number} {box : Box} {object : AList fun _ : Id => Entry Race}
    {children : Quadrant → Quadtree Id Race}
    (hmeet : ¬ (left > box.right ∨ right < box.left ∨ top < box.bottom ∨ bottom > box.top)) :
    (node box object children).query id left bottom right top [] =
      quadrants.flatMap fun q => (children q).query id left bottom right top [] := by
  rw [query, if_neg hmeet,
    foldl_eq_append_flatMap (fun q result => (children q).query_eq_append id left bottom right top result),
    List.nil_append]

/-- The strict comparisons with which a query selects. -/
def Selected (left bottom right top : Number) (entry : Entry Race) : Prop :=
  left < entry.x ∧ entry.x < right ∧ bottom < entry.y ∧ entry.y < top

theorem meets_of_selected {left bottom right top : Number} {entry : Entry Race} {box : Box}
    (hin : box.Inside entry.x entry.y) (hsel : Selected left bottom right top entry) :
    ¬ (left > box.right ∨ right < box.left ∨ top < box.bottom ∨ bottom > box.top) := by
  obtain ⟨hl, hr, hb, ht⟩ := hsel
  rintro (hpast | hpast | hpast | hpast)
  · exact hin (.inr (.inl (Number.lt_trans hpast hl)))
  · exact hin (.inl (Number.lt_trans hr hpast))
  · exact hin (.inr (.inr (.inr (Number.lt_trans ht hpast))))
  · exact hin (.inr (.inr (.inl (Number.lt_trans hpast hb))))

theorem mem_query {id : Id} {left bottom right top : Number} {tree : Quadtree Id Race} (h : tree.WellFormed)
    (found : Found Id Race) :
    found ∈ tree.query id left bottom right top [] ↔
      ∃ path, tree.Stored path found.id found.pos ∧ found.race = found.pos.race ∧ found.id ≠ id ∧
        Selected left bottom right top found.pos := by
  induction tree with
  | leaf box object =>
    rw [query]
    constructor
    · intro hmem
      split at hmem
      · cases hmem
      · simp only [List.nil_append, List.mem_map, List.mem_filter, decide_eq_true_eq] at hmem
        obtain ⟨⟨k, entry⟩, ⟨hentry, hne, hl, hr, ht, hb⟩, rfl⟩ := hmem
        exact ⟨[], ⟨rfl, AList.mem_lookup_iff.mpr hentry⟩, rfl, hne, hl, hr, hb, ht⟩
    · rintro ⟨path, ⟨-, hlookup⟩, hrace, hne, hsel⟩
      rw [if_neg (meets_of_selected (h _ _ hlookup) hsel), List.nil_append, List.mem_map]
      obtain ⟨hl, hr, hb, ht⟩ := hsel
      refine ⟨⟨found.id, found.pos⟩, ?_, by rw [← hrace]⟩
      rw [List.mem_filter, decide_eq_true_eq]
      exact ⟨AList.mem_lookup_iff.mp hlookup, hne, hl, hr, ht, hb⟩
  | node box object children ih =>
    obtain ⟨-, hchildren, -, hinside⟩ := h
    constructor
    · intro hmem
      by_cases hmeet : left > box.right ∨ right < box.left ∨ top < box.bottom ∨ bottom > box.top
      · rw [query, if_pos hmeet] at hmem
        cases hmem
      · rw [query_node hmeet] at hmem
        obtain ⟨q, -, hq⟩ := List.mem_flatMap.mp hmem
        obtain ⟨path, hstored, hrest⟩ := (ih q (hchildren q)).mp hq
        exact ⟨q :: path, stored_cons.mpr hstored, hrest⟩
    · rintro ⟨path, ⟨q, rest, rfl, hstored⟩, hrace, hne, hsel⟩
      rw [query_node (meets_of_selected (hinside q rest _ _ hstored) hsel)]
      exact List.mem_flatMap.mpr ⟨q, mem_quadrants q, (ih q (hchildren q)).mpr ⟨rest, hstored, hrace, hne, hsel⟩⟩

/-- No id is stored in two leaves. -/
def Unique (tree : Quadtree Id Race) : Prop :=
  ∀ id path path' entry entry', tree.Stored path id entry → tree.Stored path' id entry' → path = path'

/-- A query reports no id twice. -/
theorem nodup_query {id : Id} {left bottom right top : Number} {tree : Quadtree Id Race} (h : tree.WellFormed)
    (hunique : tree.Unique) : ((tree.query id left bottom right top []).map (·.id)).Nodup := by
  induction tree with
  | leaf box object =>
    rw [query]
    split
    · simp
    · rw [List.nil_append, List.map_map]
      exact object.keys_nodup.sublist (List.filter_sublist.map _)
  | node box object children ih =>
    obtain ⟨-, hchildren, -⟩ := h
    by_cases hmeet : left > box.right ∨ right < box.left ∨ top < box.bottom ∨ bottom > box.top
    · rw [query, if_pos hmeet]
      simp
    · rw [query_node hmeet, List.map_flatMap, List.nodup_flatMap]
      refine ⟨fun q _ => ih q (hchildren q) fun id' path path' entry entry' hstored hstored' => ?_, ?_⟩
      · exact (List.cons.inj (hunique id' _ _ _ _ (stored_cons.mpr hstored) (stored_cons.mpr hstored'))).2
      · refine nodup_quadrants.imp fun {q q'} hne => ?_
        simp only [Function.onFun, List.disjoint_left, List.mem_map, not_exists, not_and]
        rintro _ ⟨found, hfound, rfl⟩ found' hfound' hsame
        obtain ⟨path, hstored, -⟩ := (mem_query (hchildren q) found).mp hfound
        obtain ⟨path', hstored', -⟩ := (mem_query (hchildren q') found').mp hfound'
        rw [hsame] at hstored'
        exact hne (List.cons.inj (hunique _ _ _ _ _ (stored_cons.mpr hstored) (stored_cons.mpr hstored'))).1

/-! ### The empty tree -/

/-- The four boxes cover their parent wherever its center lies. -/
theorem exists_child_inside {box : Box} {x y : Number} (h : box.Inside x y) : ∃ q, (box.child q).Inside x y := by
  simp only [Box.Inside, not_or, gt_iff_lt] at h ⊢
  obtain ⟨hl, hr, ht, hb⟩ := h
  rcases Number.not_lt_or x box.centerx with hx | hx <;> rcases Number.not_lt_or y box.centery with hy | hy
  · exact ⟨.topRight, hx, hr, ht, hy⟩
  · exact ⟨.bottomRight, hx, hr, hy, hb⟩
  · exact ⟨.topLeft, hl, hx, ht, hy⟩
  · exact ⟨.bottomLeft, hl, hx, hy, hb⟩

omit [DecidableEq Id] in
theorem box_genChildren (levels : Nat) (box : Box) : (genChildren levels box : Quadtree Id Race).box = box := by
  cases levels <;> rfl

theorem not_stored_genChildren (levels : Nat) (box : Box) (path : List Quadrant) (id : Id) (entry : Entry Race) :
    ¬ (genChildren levels box).Stored path id entry := by
  induction levels generalizing box path with
  | zero => simp [genChildren, Stored]
  | succ levels ih =>
    rintro ⟨q, rest, -, hstored⟩
    exact ih _ _ hstored

theorem wellFormed_genChildren (levels : Nat) (box : Box) :
    (genChildren levels box : Quadtree Id Race).WellFormed := by
  induction levels generalizing box with
  | zero => simp [genChildren, WellFormed]
  | succ levels ih =>
    refine ⟨rfl, fun q => ih _, fun x y hxy => ?_, fun q path id entry hstored =>
      absurd hstored (not_stored_genChildren _ _ _ _ _)⟩
    obtain ⟨q, hq⟩ := exists_child_inside hxy
    exact ⟨q, by rwa [box_genChildren]⟩

end Quadtree

end SkynetServer.Map
