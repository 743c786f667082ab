import SkynetServer.Map.Neighbours

/-!
# Updates

`aoi.update` takes the object out of the tree, puts it back at the new position and compares the neighbours it finds there
with its list. Inside the box it reports exactly who comes into range, who stays and who is left, whatever calls came
before, where the ends of the searched square are not rounded. Outside of the box it returns nothing, but the object stays out of the tree while it is still registered: a call
that is rejected changes nothing exactly when an earlier one had already taken the object out.
-/

namespace SkynetServer.Map

open Lib

variable {Id Race : Type} [DecidableEq Id]

namespace Aoi

/-- The leaf that a registered object remembers. -/
def leafOf (object : Table Id (Object Id Race)) (id : Id) : Option (List Quadrant) := (object.lookup id).map (·.qtree)

/-- What holds of a state whatever calls led to it, also calls that were rejected: an object that the tree stores is
registered, and remembers its leaf. -/
def Kept (box : Box) (s : Aoi Id Race) : Prop :=
  ∃ flat, Quadtree.Refines box s.qtree flat ∧
    ∀ id entry leaf, flat id = some (entry, leaf) → leafOf s.object id = some leaf

/-- The ids that an update should find: those that the tree stores within the radius of the new position. -/
def InRange (s : Aoi Id Race) (id : Id) (pos : Position) (k : Id) : Prop :=
  k ≠ id ∧ ∃ path entry, s.qtree.Stored path k entry ∧ Near s.radius pos ⟨entry.x, entry.y⟩

/-- What an update from the list `old` should report, and leave behind. -/
structure Reported (s : Aoi Id Race) (id : Id) (race : Race) (pos : Position) (old : Table Id (Neighbour Id Race))
    (answer : Aoi Id Race × Option (Moved Id Race)) : Prop where
  moved : ∃ m, answer.2 = some m ∧ (∀ k, k ∈ m.nlist ↔ InRange s id pos k ∧ k ∉ old) ∧
    (∀ k, k ∈ m.ulist ↔ InRange s id pos k ∧ k ∈ old) ∧ ∀ k, k ∈ m.olist ↔ k ∈ old ∧ ¬ InRange s id pos k
  me : ∃ o, answer.1.object.lookup id = some o ∧ o.pos = pos ∧ ∀ k, k ∈ o.list ↔ InRange s id pos k
  theirs : ∀ k, InRange s id pos k → ∃ o, answer.1.object.lookup k = some o ∧ o.list.lookup id = some ⟨id, race, pos⟩

/-! ### The leaves behind the calls -/

theorem leafOf_modify (object : Table Id (Object Id Race)) (k k' : Id) (f : Object Id Race → Object Id Race)
    (hf : ∀ o, (f o).qtree = o.qtree) : leafOf (object.modify k f) k' = leafOf object k' := by
  unfold leafOf
  rw [Table.lookup_modify]
  split
  · rw [Option.map_map]
    congr 1
    funext o
    exact hf o
  · rfl

theorem leaf_of_update {flat : FlatMap Id Race} {object : Table Id (Object Id Race)} {id k : Id}
    (hleaf : ∀ id entry leaf, flat id = some (entry, leaf) → leafOf object id = some leaf) {put entry : Entry Race}
    {leaf leaf' : List Quadrant} (hentry : Function.update flat id (some (put, leaf)) k = some (entry, leaf')) :
    (if k = id then some leaf else leafOf object k) = some leaf' := by
  by_cases hk : k = id
  · subst hk
    rw [Function.update_self] at hentry
    rw [if_pos rfl, (Prod.mk.inj (Option.some.inj hentry)).2]
  · rw [Function.update_of_ne hk] at hentry
    rw [if_neg hk]
    exact hleaf k entry leaf' hentry

theorem leaf_of_update_none {flat : FlatMap Id Race} {object : Table Id (Object Id Race)} {id k : Id}
    (hleaf : ∀ id entry leaf, flat id = some (entry, leaf) → leafOf object id = some leaf) {entry : Entry Race}
    {leaf : List Quadrant} (hentry : Function.update flat id none k = some (entry, leaf)) :
    k ≠ id ∧ leafOf object k = some leaf := by
  have hk : k ≠ id := by
    rintro rfl
    rw [Function.update_self] at hentry
    cases hentry
  rw [Function.update_of_ne hk] at hentry
  exact ⟨hk, hleaf k entry leaf hentry⟩

theorem leafOf_insert (object : Table Id (Object Id Race)) (k k' : Id) (o : Object Id Race) :
    leafOf (object.insert k o) k' = if k' = k then some o.qtree else leafOf object k' := by
  unfold leafOf
  by_cases hk : k' = k
  · subst hk
    rw [AList.lookup_insert, if_pos rfl]
    rfl
  · rw [AList.lookup_insert_ne hk, if_neg hk]

theorem leafOf_foldl {α β : Type} {f : Table Id (Object Id Race) × β → α → Table Id (Object Id Race) × β}
    (hf : ∀ lists a k, leafOf (f lists a).1 k = leafOf lists.1 k) (as : List α)
    (lists : Table Id (Object Id Race) × β) (k : Id) : leafOf (as.foldl f lists).1 k = leafOf lists.1 k := by
  induction as generalizing lists with
  | nil => rfl
  | cons a as ih => rw [List.foldl_cons, ih, hf]

theorem leafOf_meet (me : Neighbour Id Race) (result : List (Found Id Race)) (object : Table Id (Object Id Race))
    (k : Id) : leafOf (meet me result object).1 k = leafOf object k := by
  refine leafOf_foldl (fun lists f k => ?_) result (object, ∅) k
  split
  · exact leafOf_modify lists.1 f.id k (note me) fun _ => rfl
  · rfl

theorem leafOf_approach (me : Neighbour Id Race) (result : List (Found Id Race)) (object : Table Id (Object Id Race))
    (k : Id) : leafOf (approach me result object).1 k = leafOf object k :=
  leafOf_foldl (fun lists f k => leafOf_modify lists.1 f.id k (note me) fun _ => rfl) result (object, ∅) k

theorem leafOf_forget (id : Id) (list : Table Id (Neighbour Id Race)) (object : Table Id (Object Id Race)) (k : Id) :
    leafOf (list.entries.foldl (fun object v => object.modify v.2.id (forget id)) object) k = leafOf object k := by
  generalize list.entries = entries
  induction entries generalizing object with
  | nil => rfl
  | cons v entries ih => rw [List.foldl_cons, ih, leafOf_modify object v.2.id k (forget id) fun _ => rfl]

/-! ### What the calls keep -/

theorem kept_init (bbox : Box) (r : Number) : Kept bbox (init bbox r : Aoi Id Race) :=
  ⟨fun _ => none, Quadtree.refines_new bbox, fun id entry leaf h => by cases h⟩

theorem refines_out {box : Box} {s : Aoi Id Race} {flat : FlatMap Id Race} (href : Quadtree.Refines box s.qtree flat)
    (hleaf : ∀ id entry leaf, flat id = some (entry, leaf) → leafOf s.object id = some leaf) {id : Id}
    {c : Object Id Race} (hc : s.object.lookup id = some c) :
    Quadtree.Refines box (s.takeOut c id) (Function.update flat id none) := by
  refine refines_takeOut_of_leaf href fun entry leaf hentry => ?_
  have hkept := hleaf id entry leaf hentry
  rw [leafOf, hc] at hkept
  exact (Option.some.inj hkept).symm

theorem insert_cases {box : Box} {tree : Quadtree Id Race} {flat : FlatMap Id Race}
    (href : Quadtree.Refines box tree flat) {id : Id} (hnone : flat id = none) (race : Race) (pos : Position) :
    (¬ box.Inside pos.x pos.y ∧ tree.insert id race pos.x pos.y = none) ∨
      (box.Inside pos.x pos.y ∧ ∃ leaf tree', tree.insert id race pos.x pos.y = some (leaf, tree') ∧
        Quadtree.Refines box tree' (Function.update flat id (some (⟨race, pos.x, pos.y⟩, leaf)))) := by
  by_cases hin : box.Inside pos.x pos.y
  · exact .inr ⟨hin, refines_insert href hnone race hin⟩
  · refine .inl ⟨hin, ?_⟩
    cases hins : tree.insert id race pos.x pos.y with
    | none => rfl
    | some result => exact absurd (href.box_eq ▸ (Quadtree.insert_some href.wellFormed hins).inside) hin

theorem kept_insert {box : Box} {s : Aoi Id Race} (h : Kept box s) (id : Id) (race : Race) (pos : Position) :
    Kept box (s.insert id race pos).1 := by
  cases hc : s.object.lookup id with
  | some c => simpa only [insert, hc] using h
  | none =>
    obtain ⟨flat, href, hleaf⟩ := h
    have hnone : flat id = none := by
      cases hentry : flat id with
      | none => rfl
      | some kept =>
        have hkept := hleaf id kept.1 kept.2 hentry
        rw [leafOf, hc] at hkept
        cases hkept
    rcases insert_cases href hnone race pos with ⟨-, hins⟩ | ⟨-, leaf, tree, hins, href'⟩
    · simp only [insert, hc, hins]
      exact ⟨flat, href, hleaf⟩
    · simp only [insert, hc, hins]
      refine ⟨_, href', fun k entry leaf' hentry => ?_⟩
      rw [leafOf_insert, leafOf_meet]
      exact leaf_of_update hleaf hentry

theorem kept_remove {box : Box} {s : Aoi Id Race} (h : Kept box s) (id : Id) : Kept box (s.remove id).1 := by
  cases hc : s.object.lookup id with
  | none => simpa only [remove, hc] using h
  | some c =>
    obtain ⟨flat, href, hleaf⟩ := h
    simp only [remove, hc]
    refine ⟨_, refines_out href hleaf hc, fun k entry leaf hentry => ?_⟩
    obtain ⟨hk, hkept⟩ := leaf_of_update_none hleaf hentry
    rw [leafOf, AList.lookup_erase_ne hk]
    exact (leafOf_forget id c.list s.object k).trans hkept

theorem update_outside {box : Box} {s : Aoi Id Race} (h : Kept box s) {id : Id} {c : Object Id Race}
    (hc : s.object.lookup id = some c) (race : Race) {pos : Position} (hout : ¬ box.Inside pos.x pos.y) :
    s.update id race pos = ({ s with qtree := s.takeOut c id }, none) := by
  obtain ⟨flat, href, hleaf⟩ := h
  rcases insert_cases (refines_out href hleaf hc) (Function.update_self id none flat) race pos with
    ⟨-, hins⟩ | ⟨hin, -⟩
  · simp only [update, hc, hins]
  · exact absurd hin hout

theorem update_inside {box : Box} {s : Aoi Id Race} (h : Kept box s) {id : Id} {c : Object Id Race}
    (hc : s.object.lookup id = some c) (race : Race) {pos : Position} (hin : box.Inside pos.x pos.y) :
    Kept box (s.update id race pos).1 ∧
      (pos.Exact s.radius → Reported s id race pos c.list (s.update id race pos)) := by
  obtain ⟨flat, href, hleaf⟩ := h
  rcases insert_cases (refines_out href hleaf hc) (Function.update_self id none flat) race pos with
    ⟨hout, -⟩ | ⟨-, leaf, tree, hins, href'⟩
  · exact absurd hin hout
  rw [Function.update_idem] at href'
  have hids : pos.Exact s.radius → ∀ k, k ∈ (s.around tree id pos).map (·.id) ↔ InRange s id pos k := by
    intro hexact k
    rw [mem_around_iff_stored href'.wellFormed id hexact, InRange]
    refine and_congr_right fun hk => ?_
    simp only [href'.stored, href.stored, Function.update_of_ne hk]
  obtain ⟨hobject, hlist, hnamed⟩ := approach_spec ⟨id, race, pos⟩ (nodup_around (s := s) href' id pos)
    (s.object.insert id { c with qtree := leaf, pos := pos })
  have hleaves := leafOf_approach ⟨id, race, pos⟩ (s.around tree id pos)
    (s.object.insert id { c with qtree := leaf, pos := pos })
  obtain ⟨hmover, -⟩ := mover_list_spec hnamed c.list
  simp only [update, hc, hins]
  generalize approach ⟨id, race, pos⟩ (s.around tree id pos)
    (s.object.insert id { c with qtree := leaf, pos := pos }) = lists at hobject hlist hleaves hmover ⊢
  obtain ⟨hstay, -⟩ := stay_spec lists.2 c.list
  constructor
  · refine ⟨_, href', fun k entry leaf' hentry => ?_⟩
    refine Eq.trans (leafOf_modify lists.1 id k _ ?_) ?_
    · exact fun _ => rfl
    rw [hleaves, leafOf_insert]
    exact leaf_of_update hleaf hentry
  · intro hexact
    replace hids := hids hexact
    have hfound : ∀ k, k ∈ lists.2 ↔ InRange s id pos k := fun k => (hlist k).trans (hids k)
    refine ⟨⟨_, rfl, fun k => ?_, fun k => ?_, fun k => ?_⟩, ?_, fun k hk => ?_⟩
    · rw [mem_entered, hstay, hfound]
      tauto
    · rw [hstay, hfound]
    · rw [mem_left, hfound]
    · -- the loop does not come to the mover itself
      have hself : lists.1.lookup id = some { c with qtree := leaf, pos := pos } := by
        rw [hobject, if_neg (fun h => ((hids id).mp h).1 rfl), AList.lookup_insert]
      generalize copyInto (copyInto ∅ ((stay lists.2 c.list).1.entries.foldl (fun nlist v => nlist.erase v.1) lists.2))
        (stay lists.2 c.list).1 = list at hmover ⊢
      refine ⟨{ c with qtree := leaf, pos := pos, list := list }, ?_, rfl, fun k => (hmover k).trans (hfound k)⟩
      rw [Table.lookup_modify, if_pos rfl, hself]
      rfl
    · have hfind := (hids k).mpr hk
      obtain ⟨hne, path, entry, hstored, -⟩ := hk
      obtain ⟨o, ho, -⟩ := Option.map_eq_some_iff.mp (hleaf k entry path ((href.stored _ _ _).mp hstored))
      refine ⟨note ⟨id, race, pos⟩ o, ?_, AList.lookup_insert _⟩
      rw [Table.lookup_modify, if_neg hne, hobject, if_pos hfind, AList.lookup_insert_ne hne, ho]
      rfl

theorem kept_update {box : Box} {s : Aoi Id Race} (h : Kept box s) (id : Id) (race : Race) (pos : Position) :
    Kept box (s.update id race pos).1 := by
  cases hc : s.object.lookup id with
  | none => simpa only [update, hc] using h
  | some c =>
    by_cases hin : box.Inside pos.x pos.y
    · exact (update_inside h hc race hin).1
    · rw [update_outside h hc race hin]
      obtain ⟨flat, href, hleaf⟩ := h
      exact ⟨_, refines_out href hleaf hc, fun k entry leaf hentry => (leaf_of_update_none hleaf hentry).2⟩

theorem kept_runCalls (bbox : Box) (r : Number) (calls : List (AoiCall Id Race)) : Kept bbox (runCalls bbox r calls) := by
  induction calls using List.reverseRecOn with
  | nil => exact kept_init bbox r
  | append_singleton calls call ih =>
    rw [runCalls_snoc]
    cases call with
    | insert id race pos => exact kept_insert ih id race pos
    | update id race pos => exact kept_update ih id race pos
    | remove id => exact kept_remove ih id

/-- **Who comes, who stays and who is left.** After any calls, an update of a registered object to a position inside the
box, around which the searched square is not rounded, reports exactly these, leaves the object with the list of those in
range, and is noted in all their lists. -/
theorem update_reported (bbox : Box) (r : Number) (calls : List (AoiCall Id Race)) (id : Id) (race : Race) (pos : Position)
    (c : Object Id Race) (hc : (runCalls bbox r calls).object.lookup id = some c) (hin : bbox.Inside pos.x pos.y)
    (hexact : pos.Exact r) :
    Reported (runCalls bbox r calls) id race pos c.list ((runCalls bbox r calls).update id race pos) :=
  (update_inside (kept_runCalls bbox r calls) hc race hin).2 (by rwa [radius_runCalls])

/-- Of two neighbours one moves on, and a third object comes into its range. -/
theorem update_reported_moves_on :
    ∃ c, (runCalls ⟨0, 0, 100, 100⟩ 10 ([.insert 1 0 ⟨50, 50⟩, .insert 2 0 ⟨55, 50⟩, .insert 3 0 ⟨70, 50⟩] :
        List (AoiCall Nat Nat))).object.lookup 1 = some c ∧
      Reported (runCalls ⟨0, 0, 100, 100⟩ 10 [.insert 1 0 ⟨50, 50⟩, .insert 2 0 ⟨55, 50⟩, .insert 3 0 ⟨70, 50⟩])
        1 0 ⟨66, 50⟩ c.list ((runCalls ⟨0, 0, 100, 100⟩ 10
          [.insert 1 0 ⟨50, 50⟩, .insert 2 0 ⟨55, 50⟩, .insert 3 0 ⟨70, 50⟩]).update 1 0 ⟨66, 50⟩) := by
  have hsome : ((runCalls ⟨0, 0, 100, 100⟩ 10 ([.insert 1 0 ⟨50, 50⟩, .insert 2 0 ⟨55, 50⟩, .insert 3 0 ⟨70, 50⟩] :
      List (AoiCall Nat Nat))).object.lookup 1).isSome := by decide +kernel
  obtain ⟨c, hc⟩ := Option.isSome_iff_exists.mp hsome
  have hin : Box.Inside ⟨0, 0, 100, 100⟩ 66 50 := by decide +kernel
  have hexact : Position.Exact 10 ⟨66, 50⟩ := ⟨Number.exactEnds_integer (by decide) (by decide),
    Number.exactEnds_integer (by decide) (by decide)⟩
  exact ⟨c, hc, update_reported ⟨0, 0, 100, 100⟩ 10 _ 1 0 ⟨66, 50⟩ c hc hin hexact⟩

theorem not_reported_of_missing {box : Box} {s : Aoi Id Race} (h : Kept box s) {id k : Id} {race race' : Race} {pos : Position}
    {x y left bottom right top : Number} (old : Table Id (Neighbour Id Race))
    (hfound : ⟨k, race', ⟨race', x, y⟩⟩ ∈ s.qtree.query id left bottom right top []) (hnear : Near s.radius pos ⟨x, y⟩)
    (hmissing : ((s.update id race pos).1.object.lookup k).bind (fun o => o.list.lookup id) = none) :
    ¬ Reported s id race pos old (s.update id race pos) := by
  intro hreported
  obtain ⟨flat, href, -⟩ := h
  obtain ⟨path, hstored, -, hne, -⟩ := (Quadtree.mem_query href.wellFormed _).mp hfound
  obtain ⟨o, ho, hlist⟩ := hreported.theirs k ⟨hne, path, _, hstored, hnear⟩
  rw [ho, Option.bind_some, hlist] at hmissing
  cases hmissing

/-- The floats nearest to 0.1 and to 10.1. -/
def tenth : Number := .double (.round (3602879701896397 * 2 ^ 1019 : Nat))

def tenAndTenth : Number := .double (.round (5685794529555251 * 2 ^ 1025 : Nat))

/-- The sum of 0.1 and 10 is rounded down to 10.1, so that an object there is not found, although it is near. -/
theorem not_update_reported_rounded :
    ¬ ∀ (bbox : Box) (r : Number) (calls : List (AoiCall Nat Nat)) (id race : Nat) (pos : Position) (c : Object Nat Nat),
      (runCalls bbox r calls).object.lookup id = some c → bbox.Inside pos.x pos.y →
        Reported (runCalls bbox r calls) id race pos c.list ((runCalls bbox r calls).update id race pos) := by
  intro hall
  have hsome : ((runCalls ⟨0, 0, 100, 100⟩ 10 ([.insert 1 0 ⟨50, 50⟩, .insert 2 0 ⟨tenAndTenth, 50⟩] :
      List (AoiCall Nat Nat))).object.lookup 1).isSome := by decide +kernel
  obtain ⟨c, hc⟩ := Option.isSome_iff_exists.mp hsome
  have hreported := hall ⟨0, 0, 100, 100⟩ 10 [.insert 1 0 ⟨50, 50⟩, .insert 2 0 ⟨tenAndTenth, 50⟩] 1 0 ⟨tenth, 50⟩ c hc
    (by decide +kernel : Box.Inside ⟨0, 0, 100, 100⟩ tenth 50)
  have hfound : (⟨2, 0, ⟨0, tenAndTenth, 50⟩⟩ : Found Nat Nat) ∈ (runCalls ⟨0, 0, 100, 100⟩ 10
      ([.insert 1 0 ⟨50, 50⟩, .insert 2 0 ⟨tenAndTenth, 50⟩] : List (AoiCall Nat Nat))).qtree.query 1 9 49 11 51 [] := by
    decide +kernel
  exact not_reported_of_missing (kept_runCalls _ _ _) c.list hfound (by decide +kernel) (by decide +kernel) hreported

/-! ### Rejected updates -/

end Aoi

/-- What the calls return. -/
inductive AoiAnswer (Id Race : Type) where
  | inserted (answer : Option (Table Id (Neighbour Id Race) × List (Found Id Race)))
  | updated (answer : Option (Moved Id Race))
  | removed (answer : Option (Table Id (Neighbour Id Race)))

def AoiCall.answer (s : Aoi Id Race) : AoiCall Id Race → AoiAnswer Id Race
  | .insert id race pos => .inserted (s.insert id race pos).2
  | .update id race pos => .updated (s.update id race pos).2
  | .remove id => .removed (s.remove id).2

namespace Aoi

/-- The answers to the calls that come after a state. -/
def answers : Aoi Id Race → List (AoiCall Id Race) → List (AoiAnswer Id Race)
  | _, [] => []
  | s, call :: calls => call.answer s :: answers (call.run s) calls

/-- The call returns no success, and nobody can tell later that it was made. -/
structure Unchanged (s : Aoi Id Race) (answer : Aoi Id Race × Option (Moved Id Race)) : Prop where
  rejected : answer.2 = none
  object : answer.1.object = s.object
  contents : ∀ path k entry, answer.1.qtree.Stored path k entry ↔ s.qtree.Stored path k entry
  later : ∀ calls, answers answer.1 calls = answers s calls

theorem takeOut_of_not_stored {box : Box} {s : Aoi Id Race} (h : Kept box s) {id : Id}
    (hnot : ∀ path entry, ¬ s.qtree.Stored path id entry) (c : Object Id Race) : s.takeOut c id = s.qtree := by
  obtain ⟨flat, href, -⟩ := h
  unfold takeOut
  cases hrem : s.qtree.removeAt id c.qtree with
  | none => rfl
  | some tree =>
    obtain ⟨path, -, hremoved⟩ := Quadtree.removeAt_some href.wellFormed hrem
    obtain ⟨entry, hstored⟩ := hremoved.was_stored
    exact absurd hstored (hnot path entry)

theorem not_stored_takeOut {box : Box} {s : Aoi Id Race} (h : Kept box s) {id : Id} {c : Object Id Race}
    (hc : s.object.lookup id = some c) (path : List Quadrant) (entry : Entry Race) :
    ¬ (s.takeOut c id).Stored path id entry := by
  obtain ⟨flat, href, hleaf⟩ := h
  rw [(refines_out href hleaf hc).stored, Function.update_self]
  exact Option.some_ne_none _ ∘ Eq.symm

theorem unchanged_iff_not_stored {box : Box} {s : Aoi Id Race} (h : Kept box s) {id : Id} {c : Object Id Race}
    (hc : s.object.lookup id = some c) (race : Race) {pos : Position} (hout : ¬ box.Inside pos.x pos.y) :
    Unchanged s (s.update id race pos) ↔ ∀ path entry, ¬ s.qtree.Stored path id entry := by
  rw [update_outside h hc race hout]
  constructor
  · intro hsame path entry hstored
    exact not_stored_takeOut h hc path entry ((hsame.contents path id entry).mpr hstored)
  · intro hnot
    rw [takeOut_of_not_stored h hnot c]
    exact ⟨rfl, rfl, fun _ _ _ => Iff.rfl, fun _ => rfl⟩

/-- **Rejected updates.** After any calls, an update of a registered object to a position outside of the box changes nothing
exactly when the tree does not store the object: an earlier update was rejected, and none has been accepted since. -/
theorem rejected_unchanged_iff_not_stored (bbox : Box) (r : Number) (calls : List (AoiCall Id Race)) (id : Id) (race : Race)
    (pos : Position) (c : Object Id Race) (hc : (runCalls bbox r calls).object.lookup id = some c)
    (hout : ¬ bbox.Inside pos.x pos.y) :
    Unchanged (runCalls bbox r calls) ((runCalls bbox r calls).update id race pos) ↔
      ∀ path entry, ¬ (runCalls bbox r calls).qtree.Stored path id entry :=
  unchanged_iff_not_stored (kept_runCalls bbox r calls) hc race hout

/-- An object steps out of the map twice. -/
theorem rejected_unchanged_iff_not_stored_twice :
    ∃ c, (runCalls ⟨0, 0, 100, 100⟩ 10 ([.insert 1 0 ⟨50, 50⟩, .update 1 0 ⟨200, 50⟩] :
        List (AoiCall Nat Nat))).object.lookup 1 = some c ∧
      (Unchanged (runCalls ⟨0, 0, 100, 100⟩ 10 [.insert 1 0 ⟨50, 50⟩, .update 1 0 ⟨200, 50⟩])
          ((runCalls ⟨0, 0, 100, 100⟩ 10 [.insert 1 0 ⟨50, 50⟩, .update 1 0 ⟨200, 50⟩]).update 1 0 ⟨300, 50⟩) ↔
        ∀ path entry, ¬ (runCalls ⟨0, 0, 100, 100⟩ 10 [.insert 1 0 ⟨50, 50⟩, .update 1 0 ⟨200, 50⟩]).qtree.Stored
          path 1 entry) := by
  have hsome : ((runCalls ⟨0, 0, 100, 100⟩ 10 ([.insert 1 0 ⟨50, 50⟩, .update 1 0 ⟨200, 50⟩] :
      List (AoiCall Nat Nat))).object.lookup 1).isSome := by decide +kernel
  obtain ⟨c, hc⟩ := Option.isSome_iff_exists.mp hsome
  exact ⟨c, hc, rejected_unchanged_iff_not_stored ⟨0, 0, 100, 100⟩ 10 _ 1 0 ⟨300, 50⟩ c hc
    (by decide +kernel : ¬ Box.Inside ⟨0, 0, 100, 100⟩ 300 50)⟩

/-- A registered object steps out of the map, and those around it no longer find it. -/
theorem not_rejected_unchanged_steps_out :
    ¬ ∀ (bbox : Box) (r : Number) (calls : List (AoiCall Nat Nat)) (id race : Nat) (pos : Position) (c : Object Nat Nat),
      (runCalls bbox r calls).object.lookup id = some c → ¬ bbox.Inside pos.x pos.y →
        Unchanged (runCalls bbox r calls) ((runCalls bbox r calls).update id race pos) := by
  intro hall
  have hsome : ((runCalls ⟨0, 0, 100, 100⟩ 10 ([.insert 1 0 ⟨50, 50⟩] : List (AoiCall Nat Nat))).object.lookup 1).isSome := by
    decide +kernel
  obtain ⟨c, hc⟩ := Option.isSome_iff_exists.mp hsome
  have hsame := hall ⟨0, 0, 100, 100⟩ 10 [.insert 1 0 ⟨50, 50⟩] 1 0 ⟨200, 50⟩ c hc
    (by decide +kernel : ¬ Box.Inside ⟨0, 0, 100, 100⟩ 200 50)
  have hanswer := AoiAnswer.inserted.inj (List.cons.inj (hsame.later [.insert 2 0 ⟨55, 50⟩])).1
  exact absurd (congrArg (Option.map fun answer => answer.2.length) hanswer) (by decide +kernel)

end Aoi

end SkynetServer.Map
