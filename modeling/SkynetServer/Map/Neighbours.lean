import Mathlib.Data.List.Induction
import SkynetServer.Map.Aoi

/-!
# Neighbour lists

The lists of `aoi.lua` are meant to be exact: of two registered objects, each is in the list of the other exactly while
they are within the radius of each other. `insert` and `remove` keep it so, where the ends of the searched square are not
rounded. `update` writes the mover into the lists of those it comes near, but never takes it out of the lists of those it
leaves, so the lists of a run stay exact exactly as long as no update leaves anybody behind.
-/

namespace SkynetServer.Map

open Lib

variable {Id Race : Type} [DecidableEq Id]

/-- Strictly within the radius in both coordinates. -/
def Near (r : Number) (p q : Position) : Prop := Number.Within r p.x q.x ∧ Number.Within r p.y q.y

instance (r : Number) (p q : Position) : Decidable (Near r p q) := inferInstanceAs (Decidable (_ ∧ _))

theorem near_comm {r : Number} {p q : Position} : Near r p q ↔ Near r q p :=
  and_congr Number.within_comm Number.within_comm

/-- The square around the position is computed without rounding and overflow. -/
def Position.Exact (r : Number) (pos : Position) : Prop := Number.ExactEnds r pos.x ∧ Number.ExactEnds r pos.y

instance (r : Number) (pos : Position) : Decidable (pos.Exact r) := inferInstanceAs (Decidable (_ ∧ _))

/-- The tree stores an object at its position, in the leaf it remembers, exactly when it is registered. -/
def MatchesAt (id : Id) (flat : FlatMap Id Race) (object : Table Id (Object Id Race)) : Prop :=
  (flat id).map (fun kept => (kept.1.x, kept.1.y, kept.2)) =
    (object.lookup id).map fun o => (o.pos.x, o.pos.y, o.qtree)

theorem MatchesAt.update_of_ne {flat : FlatMap Id Race} {object : Table Id (Object Id Race)} {k id : Id}
    (h : MatchesAt k flat object) (hk : k ≠ id) (kept : Option (Entry Race × List Quadrant)) :
    MatchesAt k (Function.update flat id kept) object := by
  rw [MatchesAt, Function.update_of_ne hk]
  exact h

namespace Aoi

/-- Each element of a list is kept under its own id. -/
def Named (list : Table Id (Neighbour Id Race)) : Prop := ∀ k n, list.lookup k = some n → n.id = k

/-- What holds of a state whatever calls led to it. -/
structure Sound (box : Box) (s : Aoi Id Race) : Prop where
  placed : ∃ flat, Quadtree.Refines box s.qtree flat ∧ ∀ id, MatchesAt id flat s.object
  named : ∀ a o, s.object.lookup a = some o → Named o.list

/-- The lists are symmetric and exact, and hold registered objects only. -/
structure Exact (s : Aoi Id Race) : Prop where
  near : ∀ a b oa ob, a ≠ b → s.object.lookup a = some oa → s.object.lookup b = some ob →
    ((b ∈ oa.list ↔ a ∈ ob.list) ∧ (a ∈ ob.list ↔ Near s.radius oa.pos ob.pos))
  registered : ∀ a oa, s.object.lookup a = some oa → ∀ k ∈ oa.list, k ∈ s.object

/-! ### The query around a position -/

theorem selected_iff_near {r : Number} {pos : Position} (hexact : pos.Exact r) {entry : Entry Race} :
    Quadtree.Selected (pos.x - r) (pos.y - r) (pos.x + r) (pos.y + r) entry ↔ Near r pos ⟨entry.x, entry.y⟩ := by
  rw [Near, ← Number.between_iff_within hexact.1, ← Number.between_iff_within hexact.2, Quadtree.Selected]
  tauto

theorem mem_around_iff_stored {s : Aoi Id Race} {qtree : Quadtree Id Race} (h : qtree.WellFormed) (id : Id)
    {pos : Position} (hexact : pos.Exact s.radius) (k : Id) :
    k ∈ (s.around qtree id pos).map (·.id) ↔
      k ≠ id ∧ ∃ path entry, qtree.Stored path k entry ∧ Near s.radius pos ⟨entry.x, entry.y⟩ := by
  rw [List.mem_map]
  constructor
  · rintro ⟨f, hf, rfl⟩
    obtain ⟨leaf, hstored, -, hne, hsel⟩ := (Quadtree.mem_query h f).mp hf
    exact ⟨hne, leaf, f.pos, hstored, (selected_iff_near hexact).mp hsel⟩
  · rintro ⟨hne, leaf, entry, hstored, hnear⟩
    exact ⟨⟨k, entry.race, entry⟩, (Quadtree.mem_query h _).mpr
      ⟨leaf, hstored, rfl, hne, (selected_iff_near hexact).mpr hnear⟩, rfl⟩

theorem mem_around {box : Box} {s : Aoi Id Race} {qtree : Quadtree Id Race} {flat : FlatMap Id Race}
    {object : Table Id (Object Id Race)} (href : Quadtree.Refines box qtree flat) {id : Id}
    (hmatch : ∀ k ≠ id, MatchesAt k flat object) {pos : Position} (hexact : pos.Exact s.radius) (k : Id) :
    k ∈ (s.around qtree id pos).map (·.id) ↔
      k ≠ id ∧ ∃ o, object.lookup k = some o ∧ Near s.radius pos o.pos := by
  rw [mem_around_iff_stored href.wellFormed id hexact]
  refine and_congr_right fun hne => ?_
  have hflat := hmatch k hne
  constructor
  · rintro ⟨leaf, entry, hstored, hnear⟩
    rw [MatchesAt, (href.stored _ _ _).mp hstored] at hflat
    obtain ⟨o, ho, heq⟩ := Option.map_eq_some_iff.mp hflat.symm
    simp only [Prod.mk.injEq] at heq
    refine ⟨o, ho, ?_⟩
    rwa [Near, ← heq.1, ← heq.2.1] at hnear
  · rintro ⟨o, ho, hnear⟩
    rw [MatchesAt, ho] at hflat
    obtain ⟨⟨entry, leaf⟩, hentry, heq⟩ := Option.map_eq_some_iff.mp hflat
    simp only [Prod.mk.injEq] at heq
    refine ⟨leaf, entry, (href.stored _ _ _).mpr hentry, ?_⟩
    rwa [Near, heq.1, heq.2.1]

theorem nodup_around {box : Box} {s : Aoi Id Race} {qtree : Quadtree Id Race} {flat : FlatMap Id Race}
    (href : Quadtree.Refines box qtree flat) (id : Id) (pos : Position) :
    ((s.around qtree id pos).map (·.id)).Nodup :=
  Quadtree.nodup_query href.wellFormed href.unique

/-! ### The tree behind the calls -/

theorem refines_insert {box : Box} {tree : Quadtree Id Race} {flat : FlatMap Id Race}
    (href : Quadtree.Refines box tree flat) {id : Id} (hnone : flat id = none) (race : Race) {pos : Position}
    (hin : box.Inside pos.x pos.y) :
    ∃ leaf tree', tree.insert id race pos.x pos.y = some (leaf, tree') ∧
      Quadtree.Refines box tree' (Function.update flat id (some (⟨race, pos.x, pos.y⟩, leaf))) := by
  have hfresh : tree.Fresh (.insert id race pos.x pos.y) := by
    intro path entry hstored
    rw [(href.stored _ _ _).mp hstored] at hnone
    cases hnone
  obtain ⟨flat', hstep, href'⟩ := Quadtree.apply_refines href hfresh
  cases hins : tree.insert id race pos.x pos.y with
  | none => exact absurd (href.box_eq.symm ▸ hin) (Quadtree.insert_none href.wellFormed hins)
  | some result =>
    obtain ⟨leaf, tree'⟩ := result
    simp only [Quadtree.apply, hins] at hstep href'
    cases hstep with
    | insert => exact ⟨leaf, tree', rfl, href'⟩

theorem refines_takeOut_of_leaf {box : Box} {s : Aoi Id Race} {flat : FlatMap Id Race}
    (href : Quadtree.Refines box s.qtree flat) {id : Id} {c : Object Id Race}
    (hleaf : ∀ entry leaf, flat id = some (entry, leaf) → leaf = c.qtree) :
    Quadtree.Refines box (s.takeOut c id) (Function.update flat id none) := by
  obtain ⟨flat', hstep, href'⟩ := Quadtree.apply_refines href (show s.qtree.Fresh (.remove c.qtree id) from trivial)
  cases hrem : s.qtree.removeAt id c.qtree with
  | none =>
    simp only [Quadtree.apply, hrem] at hstep
    have hflat : flat id = none := by
      cases hstep with
      | absent habsent =>
        cases hentry : flat id with
        | none => rfl
        | some kept => exact absurd (hleaf _ _ hentry ▸ List.prefix_rfl) (habsent _ _ hentry)
    rw [takeOut, hrem, Function.update_eq_self_iff.mpr hflat.symm]
    exact href
  | some tree' =>
    simp only [Quadtree.apply, hrem] at hstep href'
    rw [takeOut, hrem]
    cases hstep with
    | remove => exact href'

theorem refines_takeOut {box : Box} {s : Aoi Id Race} {flat : FlatMap Id Race}
    (href : Quadtree.Refines box s.qtree flat) {id : Id} (hmatch : MatchesAt id flat s.object)
    {c : Object Id Race} (hc : s.object.lookup id = some c) :
    Quadtree.Refines box (s.takeOut c id) (Function.update flat id none) := by
  refine refines_takeOut_of_leaf href fun entry leaf hentry => ?_
  rw [MatchesAt, hc, hentry] at hmatch
  exact (Prod.mk.inj (Prod.mk.inj (Option.some.inj hmatch)).2).2

/-! ### The loops over tables -/

theorem named_empty : Named (∅ : Table Id (Neighbour Id Race)) := by
  intro k n h
  simp at h

theorem named_insert {list : Table Id (Neighbour Id Race)} (h : Named list) (n : Neighbour Id Race) :
    Named (list.insert n.id n) := by
  intro k n' hlookup
  by_cases hk : k = n.id
  · subst hk
    rw [AList.lookup_insert] at hlookup
    rw [← Option.some.inj hlookup]
  · rw [AList.lookup_insert_ne hk] at hlookup
    exact h k n' hlookup

theorem named_erase {list : Table Id (Neighbour Id Race)} (h : Named list) (id : Id) : Named (list.erase id) := by
  intro k n hlookup
  by_cases hk : k = id
  · subst hk
    simp at hlookup
  · rw [AList.lookup_erase_ne hk] at hlookup
    exact h k n hlookup

theorem named_foldl {α : Type} {f : Table Id (Neighbour Id Race) → α → Table Id (Neighbour Id Race)}
    (as : List α) (hf : ∀ list, ∀ a ∈ as, Named list → Named (f list a)) {list : Table Id (Neighbour Id Race)}
    (h : Named list) : Named (as.foldl f list) := by
  induction as generalizing list with
  | nil => exact h
  | cons a as ih =>
    exact ih (fun list a' ha' => hf list a' (List.mem_cons_of_mem _ ha')) (hf list a List.mem_cons_self h)

theorem meet_eq (me : Neighbour Id Race) (result : List (Found Id Race)) (object : Table Id (Object Id Race))
    (hregistered : ∀ f ∈ result, f.id ∈ object) : meet me result object = approach me result object := by
  unfold meet approach
  generalize (∅ : Table Id (Neighbour Id Race)) = list
  induction result generalizing object list with
  | nil => rfl
  | cons f result ih =>
    obtain ⟨c, hc⟩ := Option.isSome_iff_exists.mp (AList.lookup_isSome.mpr (hregistered f List.mem_cons_self))
    simp only [List.foldl_cons, hc]
    exact ih _ (fun f' hf' => by rw [Table.mem_modify]; exact hregistered f' (List.mem_cons_of_mem _ hf')) _

theorem approach_eq (me : Neighbour Id Race) (result : List (Found Id Race)) (object : Table Id (Object Id Race)) :
    approach me result object =
      (result.foldl (fun object f => object.modify f.id (note me)) object,
        result.foldl (fun nlist f => nlist.insert f.id f.neighbour) ∅) :=
  foldl_prod (fun (object : Table Id (Object Id Race)) (f : Found Id Race) => object.modify f.id (note me))
    (fun (nlist : Table Id (Neighbour Id Race)) f => nlist.insert f.id f.neighbour) result object ∅

/-- What the two loops leave: the mover in the lists of those it found, and them in the list it gets. -/
theorem approach_spec (me : Neighbour Id Race) {result : List (Found Id Race)} (hnodup : (result.map (·.id)).Nodup)
    (object : Table Id (Object Id Race)) :
    (∀ k, (approach me result object).1.lookup k =
      if k ∈ result.map (·.id) then (object.lookup k).map (note me) else object.lookup k) ∧
    (∀ k, k ∈ (approach me result object).2 ↔ k ∈ result.map (·.id)) ∧ Named (approach me result object).2 := by
  rw [approach_eq]
  refine ⟨fun k => Table.lookup_foldl_modify (·.id) (note me) result hnodup object k, fun k => ?_, ?_⟩
  · rw [Table.mem_foldl_insert]
    simp
  · exact named_foldl result (fun list f _ h => named_insert h f.neighbour) named_empty

theorem stay_loop (es : List (Sigma fun _ : Id => Neighbour Id Race)) (hnodup : (es.map (·.1)).Nodup)
    (u o : Table Id (Neighbour Id Race)) (hu : Named u) :
    (∀ k, k ∈ (es.foldl stayStep (u, o)).1 ↔ (k ∈ es.map (·.1) ∧ k ∈ o) ∨ k ∈ u) ∧
      Named (es.foldl stayStep (u, o)).1 := by
  induction es generalizing u o with
  | nil => exact ⟨by simp, hu⟩
  | cons a es ih =>
    rw [List.map_cons, List.nodup_cons] at hnodup
    cases ha : o.lookup a.1 with
    | none =>
      have hstep : stayStep (u, o) a = (u, o) := by simp only [stayStep, ha]
      have habsent : a.1 ∉ o := AList.lookup_eq_none.mp ha
      obtain ⟨hmem, hnamed⟩ := ih hnodup.2 u o hu
      rw [List.foldl_cons, hstep]
      refine ⟨fun k => ?_, hnamed⟩
      rw [hmem, List.map_cons, List.mem_cons]
      constructor
      · tauto
      · rintro (⟨rfl | hk, ho⟩ | hu)
        · exact absurd ho habsent
        · exact .inl ⟨hk, ho⟩
        · exact .inr hu
    | some n =>
      have hstep : stayStep (u, o) a = (u.insert a.1 ⟨a.1, a.2.race, a.2.pos⟩, o.erase a.1) := by
        simp only [stayStep, ha]
      have hpresent : a.1 ∈ o := AList.lookup_isSome.mp (by rw [ha]; rfl)
      obtain ⟨hmem, hnamed⟩ := ih hnodup.2 _ (o.erase a.1) (named_insert hu ⟨a.1, a.2.race, a.2.pos⟩)
      rw [List.foldl_cons, hstep]
      refine ⟨fun k => ?_, hnamed⟩
      rw [hmem, List.map_cons, List.mem_cons, AList.mem_erase, AList.mem_insert]
      by_cases hk : k = a.1
      · subst hk
        simp [hpresent]
      · simp [hk]

theorem stay_spec (nlist olist : Table Id (Neighbour Id Race)) :
    (∀ k, k ∈ (stay nlist olist).1 ↔ k ∈ nlist ∧ k ∈ olist) ∧ Named (stay nlist olist).1 := by
  obtain ⟨hmem, hnamed⟩ := stay_loop nlist.entries nlist.keys_nodup ∅ olist named_empty
  refine ⟨fun k => ?_, hnamed⟩
  rw [stay, hmem]
  exact ⟨fun h => h.resolve_right (AList.notMem_empty k), .inl⟩

theorem left_loop (es : List (Sigma fun _ : Id => Neighbour Id Race)) (u o : Table Id (Neighbour Id Race)) (k : Id) :
    k ∈ (es.foldl stayStep (u, o)).2 ↔ k ∈ o ∧ k ∉ es.map (·.1) := by
  induction es generalizing u o with
  | nil => simp
  | cons a es ih =>
    rw [List.foldl_cons, List.map_cons, List.mem_cons, not_or]
    cases ha : o.lookup a.1 with
    | none =>
      have hne : k ∈ o → k ≠ a.1 := fun hk heq => AList.lookup_eq_none.mp ha (heq ▸ hk)
      simp only [stayStep, ha]
      rw [ih]
      tauto
    | some n =>
      simp only [stayStep, ha]
      rw [ih, AList.mem_erase]
      tauto

theorem mem_left (nlist olist : Table Id (Neighbour Id Race)) (k : Id) :
    k ∈ (stay nlist olist).2 ↔ k ∈ olist ∧ k ∉ nlist :=
  left_loop nlist.entries ∅ olist k

theorem mem_entered (nlist ulist : Table Id (Neighbour Id Race)) (k : Id) :
    k ∈ ulist.entries.foldl (fun nlist v => nlist.erase v.1) nlist ↔ k ∉ ulist ∧ k ∈ nlist := by
  rw [← AList.lookup_isSome, Table.lookup_foldl_erase]
  have hkeys : k ∈ ulist.entries.map (fun v => v.1) ↔ k ∈ ulist := Iff.rfl
  by_cases hk : k ∈ ulist
  · rw [if_pos (hkeys.mpr hk)]
    simp [hk]
  · rw [if_neg (fun h => hk (hkeys.mp h)), AList.lookup_isSome]
    simp [hk]

theorem mem_copyInto (list source : Table Id (Neighbour Id Race)) (k : Id) :
    k ∈ copyInto list source ↔ k ∈ source ∨ k ∈ list :=
  Table.mem_foldl_insert _ _ _ _ _

theorem named_copyInto {list source : Table Id (Neighbour Id Race)} (h : Named list) (h' : Named source) :
    Named (copyInto list source) := by
  refine named_foldl _ (fun list v hv hlist => ?_) h
  have := h' v.1 v.2 (AList.mem_lookup_iff.mpr hv)
  rw [← this]
  exact named_insert hlist v.2

/-- The list an update builds for the mover has everybody it found, whether new or not. -/
theorem mover_list_spec {nlist : Table Id (Neighbour Id Race)} (hnamed : Named nlist)
    (olist : Table Id (Neighbour Id Race)) :
    (∀ k, k ∈ copyInto (copyInto ∅ ((stay nlist olist).1.entries.foldl (fun nlist v => nlist.erase v.1) nlist))
        (stay nlist olist).1 ↔ k ∈ nlist) ∧
      Named (copyInto (copyInto ∅ ((stay nlist olist).1.entries.foldl (fun nlist v => nlist.erase v.1) nlist))
        (stay nlist olist).1) := by
  obtain ⟨hstay, hnamed'⟩ := stay_spec nlist olist
  refine ⟨fun k => ?_, named_copyInto (named_copyInto named_empty ?_) hnamed'⟩
  · rw [mem_copyInto, mem_copyInto, mem_entered, hstay]
    simp only [AList.notMem_empty, or_false]
    tauto
  · exact named_foldl _ (fun list v _ h => named_erase h v.1) hnamed

/-! ### The calls -/

/-- The outcome of an insert or an update: the object is at `pos`, everybody near has it in their list and is in its
own, and the others are as before. -/
structure Arrived (s s' : Aoi Id Race) (id : Id) (pos : Position) : Prop where
  radius_eq : s'.radius = s.radius
  me : ∃ o, s'.object.lookup id = some o ∧ o.pos = pos ∧
    ∀ b, b ∈ o.list ↔ b ≠ id ∧ ∃ ob, s.object.lookup b = some ob ∧ Near s.radius pos ob.pos
  others : ∃ n : Neighbour Id Race, n.id = id ∧ ∀ b ≠ id, s'.object.lookup b =
    (s.object.lookup b).map fun ob => if Near s.radius pos ob.pos then note n ob else ob

theorem arrived_of_tables (s s' : Aoi Id Race) {id : Id} {pos : Position} {ids : List Id}
    (n : Neighbour Id Race) {o : Object Id Race} (hradius : s'.radius = s.radius) (hn : n.id = id)
    (hids : ∀ k, k ∈ ids ↔ k ≠ id ∧ ∃ ob, s.object.lookup k = some ob ∧ Near s.radius pos ob.pos)
    (hloop : ∀ k ≠ id, s'.object.lookup k =
      if k ∈ ids then (s.object.lookup k).map (note n) else s.object.lookup k)
    (hme : s'.object.lookup id = some o) (hpos : o.pos = pos) (hlist : ∀ k, k ∈ o.list ↔ k ∈ ids) :
    Arrived s s' id pos := by
  refine ⟨hradius, ⟨o, hme, hpos, fun b => (hlist b).trans (hids b)⟩, n, hn, fun b hb => ?_⟩
  rw [hloop b hb]
  cases hob : s.object.lookup b with
  | none => simp
  | some ob =>
    have hiff : b ∈ ids ↔ Near s.radius pos ob.pos := by
      rw [hids]
      constructor
      · rintro ⟨-, ob', hob', hnear⟩
        rw [hob] at hob'
        rwa [Option.some.inj hob']
      · exact fun hnear => ⟨hb, ob, hob, hnear⟩
    by_cases hnear : Near s.radius pos ob.pos
    · rw [if_pos (hiff.mpr hnear)]
      simp [hnear]
    · rw [if_neg (fun h => hnear (hiff.mp h))]
      simp [hnear]

theorem Arrived.named {s s' : Aoi Id Race} {id : Id} {pos : Position} (h : Arrived s s' id pos)
    (hnamed : ∀ a o, s.object.lookup a = some o → Named o.list)
    (hme : ∀ o, s'.object.lookup id = some o → Named o.list) :
    ∀ a o, s'.object.lookup a = some o → Named o.list := by
  intro a o ha
  by_cases hid : a = id
  · subst hid
    exact hme o ha
  · obtain ⟨n, rfl, hothers⟩ := h.others
    rw [hothers a hid] at ha
    obtain ⟨ob, hob, rfl⟩ := Option.map_eq_some_iff.mp ha
    split
    · exact named_insert (hnamed a ob hob) n
    · exact hnamed a ob hob

theorem Arrived.matchesAt {s s' : Aoi Id Race} {id : Id} {pos : Position} (h : Arrived s s' id pos)
    {flat : FlatMap Id Race} (hmatch : ∀ k ≠ id, MatchesAt k flat s.object) {race : Race} {leaf : List Quadrant}
    (hleaf : ∀ o, s'.object.lookup id = some o → o.qtree = leaf) (k : Id) :
    MatchesAt k (Function.update flat id (some (⟨race, pos.x, pos.y⟩, leaf))) s'.object := by
  unfold MatchesAt
  by_cases hk : k = id
  · subst hk
    obtain ⟨o, ho, hpos, -⟩ := h.me
    rw [Function.update_self, ho]
    simp [hpos, hleaf o ho]
  · obtain ⟨n, -, hothers⟩ := h.others
    rw [Function.update_of_ne hk, hothers k hk, hmatch k hk, Option.map_map]
    congr 1
    funext o
    simp only [Function.comp_apply]
    split <;> rfl

theorem insert_arrived {box : Box} {s : Aoi Id Race} (hs : Sound box s) {id : Id} (race : Race) {pos : Position}
    (hnew : s.object.lookup id = none) (hin : box.Inside pos.x pos.y) (hexact : pos.Exact s.radius) :
    Arrived s (s.insert id race pos).1 id pos ∧ Sound box (s.insert id race pos).1 := by
  obtain ⟨flat, href, hmatch⟩ := hs.placed
  have hflat : flat id = none := by
    have := hmatch id
    rwa [MatchesAt, hnew, Option.map_none, Option.map_eq_none_iff] at this
  obtain ⟨leaf, tree, hins, href'⟩ := refines_insert href hflat race hin
  have hids := mem_around (s := s) href' (fun k hk => (hmatch k).update_of_ne hk _) hexact
  obtain ⟨hobject, hlist, hnamed⟩ :=
    approach_spec ⟨id, race, pos⟩ (nodup_around (s := s) href' id pos) s.object
  have hmeet : meet ⟨id, race, pos⟩ (s.around tree id pos) s.object =
      approach ⟨id, race, pos⟩ (s.around tree id pos) s.object := by
    refine meet_eq _ _ _ fun f hf => ?_
    obtain ⟨-, o, ho, -⟩ := (hids f.id).mp (List.mem_map.mpr ⟨f, hf, rfl⟩)
    exact AList.lookup_isSome.mp (by rw [ho]; rfl)
  simp only [insert, hnew, hins, hmeet]
  have harrived := arrived_of_tables s { s with
      qtree := tree
      object := (approach ⟨id, race, pos⟩ (s.around tree id pos) s.object).1.insert id
        ⟨id, race, pos, leaf, (approach ⟨id, race, pos⟩ (s.around tree id pos) s.object).2⟩ }
    ⟨id, race, pos⟩ rfl rfl hids (fun k hk => (AList.lookup_insert_ne hk).trans (hobject k)) (AList.lookup_insert _)
    rfl hlist
  refine ⟨harrived, ⟨_, href', harrived.matchesAt (fun k _ => hmatch k) fun o ho => ?_⟩,
    harrived.named hs.named fun o ho => ?_⟩
  · rw [AList.lookup_insert] at ho
    rw [← Option.some.inj ho]
  · rw [AList.lookup_insert] at ho
    rw [← Option.some.inj ho]
    exact hnamed

theorem update_arrived {box : Box} {s : Aoi Id Race} (hs : Sound box s) {id : Id} (race : Race) {pos : Position}
    {c : Object Id Race} (hc : s.object.lookup id = some c) (hin : box.Inside pos.x pos.y) (hexact : pos.Exact s.radius) :
    Arrived s (s.update id race pos).1 id pos ∧ Sound box (s.update id race pos).1 := by
  obtain ⟨flat, href, hmatch⟩ := hs.placed
  obtain ⟨leaf, tree, hins, href'⟩ :=
    refines_insert (refines_takeOut href (hmatch id) hc) (Function.update_self id none flat) race hin
  rw [Function.update_idem] at href'
  have hids := mem_around (s := s) href' (fun k hk => (hmatch k).update_of_ne hk _) hexact
  obtain ⟨hobject, hlist, hnamed⟩ := approach_spec ⟨id, race, pos⟩ (nodup_around (s := s) href' id pos)
    (s.object.insert id { c with qtree := leaf, pos := pos })
  obtain ⟨hmover, hmover'⟩ := mover_list_spec hnamed c.list
  simp only [update, hc, hins]
  generalize approach ⟨id, race, pos⟩ (s.around tree id pos)
    (s.object.insert id { c with qtree := leaf, pos := pos }) = lists at hobject hlist hnamed hmover hmover' ⊢
  generalize copyInto (copyInto ∅ ((stay lists.2 c.list).1.entries.foldl (fun nlist v => nlist.erase v.1) lists.2))
    (stay lists.2 c.list).1 = list at hmover hmover' ⊢
  -- the loop does not come to the mover itself
  have hself : lists.1.lookup id = some { c with qtree := leaf, pos := pos } := by
    rw [hobject, if_neg (fun h => ((hids id).mp h).1 rfl), AList.lookup_insert]
  have hme : (lists.1.modify id fun c => { c with list := list }).lookup id =
      some { c with qtree := leaf, pos := pos, list := list } := by
    rw [Table.lookup_modify, if_pos rfl, hself]
    rfl
  have harrived := arrived_of_tables s { s with
      qtree := tree
      object := lists.1.modify id fun c => { c with list := list } }
    ⟨id, race, pos⟩ rfl rfl hids
    (fun k hk => by rw [Table.lookup_modify, if_neg hk, hobject, AList.lookup_insert_ne hk]) hme rfl
    fun k => (hmover k).trans (hlist k)
  refine ⟨harrived, ⟨_, href', harrived.matchesAt (fun k _ => hmatch k) fun o ho => ?_⟩,
    harrived.named hs.named fun o ho => ?_⟩
  · rw [hme] at ho
    rw [← Option.some.inj ho]
  · rw [hme] at ho
    rw [← Option.some.inj ho]
    exact hmover'

/-- The outcome of a remove: the object is gone, also from the lists of those that were in its own. -/
theorem remove_spec {box : Box} {s : Aoi Id Race} (hs : Sound box s) {id : Id} {c : Object Id Race}
    (hc : s.object.lookup id = some c) :
    (s.remove id).1.radius = s.radius ∧ (s.remove id).1.object.lookup id = none ∧
      (∀ b ≠ id, (s.remove id).1.object.lookup b =
        (s.object.lookup b).map fun ob => if b ∈ c.list then forget id ob else ob) ∧
      Sound box (s.remove id).1 := by
  have hkeys : c.list.entries.map (fun v => v.2.id) = c.list.keys := by
    refine List.map_congr_left fun v hv => ?_
    exact hs.named id c hc v.1 v.2 (AList.mem_lookup_iff.mpr hv)
  have hlookup : ∀ b ≠ id, (s.remove id).1.object.lookup b =
      (s.object.lookup b).map fun ob => if b ∈ c.list then forget id ob else ob := by
    intro b hb
    simp only [remove, hc]
    rw [AList.lookup_erase_ne hb, Table.lookup_foldl_modify
      (fun v : Sigma fun _ : Id => Neighbour Id Race => v.2.id) (forget id) c.list.entries
      (by rw [hkeys]; exact c.list.keys_nodup), hkeys]
    by_cases hmem : b ∈ c.list
    · rw [if_pos (AList.mem_keys.mp hmem)]
      simp [hmem]
    · rw [if_neg (fun h => hmem (AList.mem_keys.mpr h))]
      simp [hmem]
  have hgone : (s.remove id).1.object.lookup id = none := by
    simp only [remove, hc]
    exact AList.lookup_erase _ _
  obtain ⟨flat, href, hmatch⟩ := hs.placed
  refine ⟨by simp only [remove, hc], hgone, hlookup, ⟨Function.update flat id none, ?_, fun k => ?_⟩, fun a o ha => ?_⟩
  · simp only [remove, hc]
    exact refines_takeOut href (hmatch id) hc
  · unfold MatchesAt
    by_cases hk : k = id
    · subst hk
      rw [Function.update_self, hgone]
      rfl
    · rw [Function.update_of_ne hk, hlookup k hk, hmatch k, Option.map_map]
      congr 1
      funext o
      simp only [Function.comp_apply]
      split <;> rfl
  · by_cases hk : a = id
    · subst hk
      rw [hgone] at ha
      cases ha
    · rw [hlookup a hk] at ha
      obtain ⟨ob, hob, rfl⟩ := Option.map_eq_some_iff.mp ha
      split
      · exact named_erase (hs.named a ob hob) id
      · exact hs.named a ob hob

/-! ### Exactness -/

/-- Nobody who has the object in their list is out of range of its new position. -/
def LeavesNobody (s : Aoi Id Race) (id : Id) (pos : Position) : Prop :=
  ∀ b ob, b ≠ id → s.object.lookup b = some ob → id ∈ ob.list → Near s.radius pos ob.pos

theorem mem_note {n : Neighbour Id Race} {c : Object Id Race} (k : Id) :
    k ∈ (note n c).list ↔ k = n.id ∨ k ∈ c.list := AList.mem_insert _

/-- What somebody else's list says of the object after it has arrived: the mover is there when it is near, and when
it was there before. -/
theorem Arrived.other {s s' : Aoi Id Race} {id b : Id} {pos : Position} {ob' : Object Id Race}
    (h : Arrived s s' id pos) (hb : b ≠ id) (hob' : s'.object.lookup b = some ob') :
    ∃ ob, s.object.lookup b = some ob ∧ ob'.pos = ob.pos ∧
      (id ∈ ob'.list ↔ Near s.radius pos ob.pos ∨ id ∈ ob.list) ∧ ∀ k ≠ id, k ∈ ob'.list ↔ k ∈ ob.list := by
  obtain ⟨n, rfl, hothers⟩ := h.others
  rw [hothers b hb] at hob'
  obtain ⟨ob, hob, rfl⟩ := Option.map_eq_some_iff.mp hob'
  refine ⟨ob, hob, ?_⟩
  split
  · rename_i hnear
    refine ⟨rfl, ?_, fun k hk => ?_⟩
    · rw [mem_note]
      simp [hnear]
    · rw [mem_note]
      simp [hk]
  · rename_i hnear
    simp [hnear]

theorem Arrived.exact_iff {s s' : Aoi Id Race} {id : Id} {pos : Position} (h : Arrived s s' id pos)
    (hexact : Exact s) : Exact s' ↔ LeavesNobody s id pos := by
  obtain ⟨o, ho, hpos, hlist⟩ := h.me
  have hback : ∀ b ob, b ≠ id → s.object.lookup b = some ob → ∃ ob', s'.object.lookup b = some ob' := by
    intro b ob hb hob
    obtain ⟨n, -, hothers⟩ := h.others
    rw [hothers b hb, hob]
    exact ⟨_, rfl⟩
  constructor
  · intro hexact' b ob hb hob hmem
    obtain ⟨ob', hob'⟩ := hback b ob hb hob
    obtain ⟨ob₁, hob₁, hpos', hiff, -⟩ := h.other hb hob'
    obtain rfl : ob₁ = ob := Option.some.inj (hob₁.symm.trans hob)
    have hnear := (hexact'.near id b o ob' hb.symm ho hob').2.mp (hiff.mpr (.inr hmem))
    rwa [h.radius_eq, hpos, hpos'] at hnear
  · intro hleaves
    have hpair : ∀ b ob', b ≠ id → s'.object.lookup b = some ob' →
        (b ∈ o.list ↔ Near s.radius pos ob'.pos) ∧ (id ∈ ob'.list ↔ Near s.radius pos ob'.pos) := by
      intro b ob' hb hob'
      obtain ⟨ob, hob, hpos', hiff, -⟩ := h.other hb hob'
      rw [hpos', hlist, hiff]
      refine ⟨⟨?_, fun hnear => ⟨hb, ob, hob, hnear⟩⟩, ⟨fun hor => hor.elim (fun hn => hn) (hleaves b ob hb hob), .inl⟩⟩
      rintro ⟨-, ob₁, hob₁, hnear⟩
      rwa [Option.some.inj (hob₁.symm.trans hob)] at hnear
    refine ⟨fun a b oa ob hab hoa hob => ?_, fun a oa hoa k hk => ?_⟩
    · rw [h.radius_eq]
      by_cases ha : a = id
      · subst ha
        obtain rfl : oa = o := Option.some.inj (hoa.symm.trans ho)
        obtain ⟨hmine, htheirs⟩ := hpair b ob hab.symm hob
        rw [hpos]
        exact ⟨hmine.trans htheirs.symm, htheirs⟩
      · by_cases hb : b = id
        · subst hb
          obtain rfl : ob = o := Option.some.inj (hob.symm.trans ho)
          obtain ⟨hmine, htheirs⟩ := hpair a oa hab hoa
          rw [hpos, near_comm]
          exact ⟨htheirs.trans hmine.symm, hmine⟩
        · obtain ⟨oa₀, hoa₀, hposa, -, hka⟩ := h.other ha hoa
          obtain ⟨ob₀, hob₀, hposb, -, hkb⟩ := h.other hb hob
          rw [hka b hb, hkb a ha, hposa, hposb]
          exact hexact.near a b oa₀ ob₀ hab hoa₀ hob₀
    · have hreg : ∀ k, k ∈ s.object → k ∈ s'.object := by
        intro k hk
        by_cases hid : k = id
        · subst hid
          exact AList.lookup_isSome.mp (by rw [ho]; rfl)
        · obtain ⟨ok, hok⟩ := Option.isSome_iff_exists.mp (AList.lookup_isSome.mpr hk)
          obtain ⟨ok', hok'⟩ := hback k ok hid hok
          exact AList.lookup_isSome.mp (by rw [hok']; rfl)
      by_cases ha : a = id
      · subst ha
        obtain rfl : oa = o := Option.some.inj (hoa.symm.trans ho)
        obtain ⟨-, ob, hob, -⟩ := (hlist k).mp hk
        exact hreg k (AList.lookup_isSome.mp (by rw [hob]; rfl))
      · by_cases hkid : k = id
        · subst hkid
          exact AList.lookup_isSome.mp (by rw [ho]; rfl)
        · obtain ⟨oa₀, hoa₀, -, -, hka⟩ := h.other ha hoa
          exact hreg k (hexact.registered a oa₀ hoa₀ k ((hka k hkid).mp hk))

theorem exact_remove {box : Box} {s : Aoi Id Race} (hs : Sound box s) (hexact : Exact s) {id : Id}
    {c : Object Id Race} (hc : s.object.lookup id = some c) : Exact (s.remove id).1 := by
  obtain ⟨hradius, hgone, hothers, -⟩ := remove_spec hs hc
  have hother : ∀ b ob', (s.remove id).1.object.lookup b = some ob' → b ≠ id ∧ ∃ ob, s.object.lookup b = some ob ∧
      ob'.pos = ob.pos ∧ ∀ k, k ∈ ob'.list ↔ k ≠ id ∧ k ∈ ob.list := by
    intro b ob' hob'
    have hb : b ≠ id := by
      rintro rfl
      rw [hgone] at hob'
      cases hob'
    rw [hothers b hb] at hob'
    obtain ⟨ob, hob, rfl⟩ := Option.map_eq_some_iff.mp hob'
    refine ⟨hb, ob, hob, ?_⟩
    split
    · exact ⟨rfl, fun k => AList.mem_erase⟩
    · rename_i hnot
      refine ⟨rfl, fun k => ⟨fun hk => ⟨?_, hk⟩, fun hk => hk.2⟩⟩
      rintro rfl
      exact hnot ((hexact.near k b c ob hb.symm hc hob).1.mpr hk)
  refine ⟨fun a b oa ob hab hoa hob => ?_, fun a oa hoa k hk => ?_⟩
  · obtain ⟨ha, oa₀, hoa₀, hposa, hka⟩ := hother a oa hoa
    obtain ⟨hb, ob₀, hob₀, hposb, hkb⟩ := hother b ob hob
    have hnear := hexact.near a b oa₀ ob₀ hab hoa₀ hob₀
    rw [hradius, hka, hkb, hposa, hposb]
    simpa [ha, hb] using hnear
  · obtain ⟨ha, oa₀, hoa₀, -, hka⟩ := hother a oa hoa
    obtain ⟨hkid, hk₀⟩ := (hka k).mp hk
    obtain ⟨ok, hok⟩ := Option.isSome_iff_exists.mp (AList.lookup_isSome.mpr (hexact.registered a oa₀ hoa₀ k hk₀))
    refine AList.lookup_isSome.mp ?_
    rw [hothers k hkid, hok]
    rfl

end Aoi

/-! ### Runs -/

/-- The calls of the map service. -/
inductive AoiCall (Id Race : Type) where
  | insert (id : Id) (race : Race) (pos : Position)
  | update (id : Id) (race : Race) (pos : Position)
  | remove (id : Id)

namespace AoiCall

def run (s : Aoi Id Race) : AoiCall Id Race → Aoi Id Race
  | .insert id race pos => (s.insert id race pos).1
  | .update id race pos => (s.update id race pos).1
  | .remove id => (s.remove id).1

/-- The positions are inside the box. -/
def InBox (box : Box) : AoiCall Id Race → Prop
  | .insert _ _ pos => box.Inside pos.x pos.y
  | .update _ _ pos => box.Inside pos.x pos.y
  | .remove _ => True

/-- The squares that are searched are computed without rounding and overflow. -/
def Exact (r : Number) : AoiCall Id Race → Prop
  | .insert _ _ pos => pos.Exact r
  | .update _ _ pos => pos.Exact r
  | .remove _ => True

/-- The condition on the state before a call: an update leaves everybody who was near the object near its new
position. -/
def KeepsNear (s : Aoi Id Race) : AoiCall Id Race → Prop
  | .update id _ pos => ∀ c, s.object.lookup id = some c → ∀ b ob, b ≠ id → s.object.lookup b = some ob →
      Near s.radius c.pos ob.pos → Near s.radius pos ob.pos
  | _ => True

end AoiCall

namespace Aoi

theorem radius_run (s : Aoi Id Race) (call : AoiCall Id Race) : (call.run s).radius = s.radius := by
  cases call with
  | insert id race pos =>
    simp only [AoiCall.run, insert]
    split
    · rfl
    · split <;> rfl
  | update id race pos =>
    simp only [AoiCall.run, update]
    split
    · rfl
    · split <;> rfl
  | remove id =>
    simp only [AoiCall.run, remove]
    split <;> rfl

theorem sound_run {box : Box} {s : Aoi Id Race} (hs : Sound box s) {call : AoiCall Id Race} (hin : call.InBox box)
    (hends : call.Exact s.radius) : Sound box (call.run s) := by
  cases call with
  | insert id race pos =>
    cases hc : s.object.lookup id with
    | none => exact (insert_arrived hs race hc hin hends).2
    | some c => simpa only [AoiCall.run, insert, hc] using hs
  | update id race pos =>
    cases hc : s.object.lookup id with
    | none => simpa only [AoiCall.run, update, hc] using hs
    | some c => exact (update_arrived hs race hc hin hends).2
  | remove id =>
    cases hc : s.object.lookup id with
    | none => simpa only [AoiCall.run, remove, hc] using hs
    | some c => exact (remove_spec hs hc).2.2.2

theorem exact_run_iff {box : Box} {s : Aoi Id Race} (hs : Sound box s) (hexact : Exact s) {call : AoiCall Id Race}
    (hin : call.InBox box) (hends : call.Exact s.radius) : Exact (call.run s) ↔ call.KeepsNear s := by
  cases call with
  | insert id race pos =>
    cases hc : s.object.lookup id with
    | none =>
      refine ((insert_arrived hs race hc hin hends).1.exact_iff hexact).trans ?_
      refine iff_of_true (fun b ob _ hob hmem => ?_) trivial
      exact absurd (hexact.registered b ob hob id hmem) (AList.lookup_eq_none.mp hc)
    | some c => simpa only [AoiCall.run, insert, hc, AoiCall.KeepsNear, iff_true] using hexact
  | update id race pos =>
    cases hc : s.object.lookup id with
    | none =>
      simp only [AoiCall.run, update, hc, AoiCall.KeepsNear, reduceCtorEq, false_implies, implies_true, iff_true]
      exact hexact
    | some c =>
      refine ((update_arrived hs race hc hin hends).1.exact_iff hexact).trans ?_
      constructor
      · rintro hleaves c' hc' b ob hb hob hnear
        obtain rfl := Option.some.inj (hc.symm.trans hc')
        exact hleaves b ob hb hob ((hexact.near id b c ob hb.symm hc hob).2.mpr hnear)
      · intro hkeeps b ob hb hob hmem
        exact hkeeps c hc b ob hb hob ((hexact.near id b c ob hb.symm hc hob).2.mp hmem)
  | remove id =>
    refine iff_of_true ?_ trivial
    cases hc : s.object.lookup id with
    | none => simpa only [AoiCall.run, remove, hc] using hexact
    | some c => exact exact_remove hs hexact hc

def runCalls (bbox : Box) (r : Number) (calls : List (AoiCall Id Race)) : Aoi Id Race :=
  calls.foldl AoiCall.run (init bbox r)

theorem runCalls_snoc (bbox : Box) (r : Number) (calls : List (AoiCall Id Race)) (call : AoiCall Id Race) :
    runCalls bbox r (calls ++ [call]) = call.run (runCalls bbox r calls) := by
  simp [runCalls, List.foldl_append]

theorem radius_runCalls (bbox : Box) (r : Number) (calls : List (AoiCall Id Race)) : (runCalls bbox r calls).radius = r := by
  induction calls using List.reverseRecOn with
  | nil => rfl
  | append_singleton calls call ih => rw [runCalls_snoc, radius_run, ih]

theorem sound_init (bbox : Box) (r : Number) : Sound bbox (init bbox r : Aoi Id Race) where
  placed := ⟨fun _ => none, Quadtree.refines_new bbox, fun _ => rfl⟩
  named := fun a o ha => by simp [init] at ha

theorem exact_init (bbox : Box) (r : Number) : Exact (init bbox r : Aoi Id Race) where
  near := fun a b oa ob _ ha => by simp [init] at ha
  registered := fun a oa ha => by simp [init] at ha

theorem sound_runCalls {bbox : Box} {r : Number} {calls : List (AoiCall Id Race)}
    (hin : ∀ call ∈ calls, call.InBox bbox) (hends : ∀ call ∈ calls, call.Exact r) : Sound bbox (runCalls bbox r calls) := by
  induction calls using List.reverseRecOn with
  | nil => exact sound_init bbox r
  | append_singleton calls call ih =>
    have hsound := ih (fun c hc => hin c (List.mem_append_left _ hc)) fun c hc => hends c (List.mem_append_left _ hc)
    rw [runCalls_snoc]
    exact sound_run hsound (hin call (by simp)) (by rw [radius_runCalls]; exact hends call (by simp))

/-- Every state of the run has exact lists. -/
def ExactAlong (bbox : Box) (r : Number) (calls : List (AoiCall Id Race)) : Prop :=
  ∀ done, done <+: calls → Exact (runCalls bbox r done)

/-- Every update of the run leaves nobody behind. -/
def KeepsNearAlong (bbox : Box) (r : Number) (calls : List (AoiCall Id Race)) : Prop :=
  ∀ done call, done ++ [call] <+: calls → call.KeepsNear (runCalls bbox r done)

theorem exact_snoc_iff {bbox : Box} {r : Number} {calls done : List (AoiCall Id Race)} {call : AoiCall Id Race}
    (hin : ∀ call ∈ calls, call.InBox bbox) (hends : ∀ call ∈ calls, call.Exact r) (hdone : done ++ [call] <+: calls)
    (hexact : Exact (runCalls bbox r done)) :
    Exact (runCalls bbox r (done ++ [call])) ↔ call.KeepsNear (runCalls bbox r done) := by
  have hpre := (List.prefix_append done [call]).trans hdone
  have hmem : call ∈ calls := hdone.subset (by simp)
  have hsound := sound_runCalls (fun c hc => hin c (hpre.subset hc)) fun c hc => hends c (hpre.subset hc)
  rw [runCalls_snoc]
  exact exact_run_iff hsound hexact (hin call hmem) (by rw [radius_runCalls]; exact hends call hmem)

theorem exactAlong_of_keepsNear {bbox : Box} {r : Number} {calls : List (AoiCall Id Race)}
    (hin : ∀ call ∈ calls, call.InBox bbox) (hends : ∀ call ∈ calls, call.Exact r)
    (hkeeps : KeepsNearAlong bbox r calls) : ExactAlong bbox r calls := by
  intro done hdone
  induction done using List.reverseRecOn with
  | nil => exact exact_init bbox r
  | append_singleton done call ih =>
    have hexact := ih ((List.prefix_append done [call]).trans hdone)
    exact (exact_snoc_iff hin hends hdone hexact).mpr (hkeeps done call hdone)

theorem keepsNear_of_exactAlong {bbox : Box} {r : Number} {calls : List (AoiCall Id Race)}
    (hin : ∀ call ∈ calls, call.InBox bbox) (hends : ∀ call ∈ calls, call.Exact r)
    (hexact : ExactAlong bbox r calls) : KeepsNearAlong bbox r calls := by
  intro done call hdone
  have hbefore := hexact done ((List.prefix_append done [call]).trans hdone)
  exact (exact_snoc_iff hin hends hdone hbefore).mp (hexact _ hdone)

/-- **Neighbour lists.** In a run of calls with positions inside the box around which the searched squares are not rounded,
the lists are symmetric and exact after every call exactly when no update leaves behind anybody who was near. -/
theorem exactAlong_iff_keepsNear (bbox : Box) (r : Number) (calls : List (AoiCall Id Race))
    (hin : ∀ call ∈ calls, call.InBox bbox) (hends : ∀ call ∈ calls, call.Exact r) :
    ExactAlong bbox r calls ↔ KeepsNearAlong bbox r calls :=
  ⟨keepsNear_of_exactAlong hin hends, exactAlong_of_keepsNear hin hends⟩

/-- Two objects meet, one of them moves a step, and the other one leaves the map. -/
theorem exactAlong_iff_keepsNear_small_step :
    ExactAlong ⟨0, 0, 100, 100⟩ 10 ([.insert 1 0 ⟨50, 50⟩, .insert 2 0 ⟨55, 50⟩, .update 1 0 ⟨51, 50⟩, .remove 2] :
      List (AoiCall Nat Nat)) ↔
    KeepsNearAlong ⟨0, 0, 100, 100⟩ 10 ([.insert 1 0 ⟨50, 50⟩, .insert 2 0 ⟨55, 50⟩, .update 1 0 ⟨51, 50⟩, .remove 2] :
      List (AoiCall Nat Nat)) := by
  refine exactAlong_iff_keepsNear ⟨0, 0, 100, 100⟩ 10 _ ?_ ?_
  · simp only [List.forall_mem_cons, List.not_mem_nil, false_imp_iff, implies_true, and_true, AoiCall.InBox]
    decide +kernel
  · simp only [List.forall_mem_cons, List.not_mem_nil, false_imp_iff, implies_true, and_true, AoiCall.Exact]
    decide +kernel

/-- One of two neighbours walks away: it stays in the list of the other one. -/
theorem not_exactAlong_walk_away :
    ¬ ∀ (bbox : Box) (r : Number) (calls : List (AoiCall Nat Nat)), (∀ call ∈ calls, call.InBox bbox) →
      ExactAlong bbox r calls := by
  intro hall
  have hin : ∀ call ∈ ([.insert 1 0 ⟨50, 50⟩, .insert 2 0 ⟨55, 50⟩, .update 1 0 ⟨90, 50⟩] : List (AoiCall Nat Nat)),
      call.InBox ⟨0, 0, 100, 100⟩ := by
    simp only [List.forall_mem_cons, List.not_mem_nil, false_imp_iff, implies_true, and_true, AoiCall.InBox]
    decide +kernel
  have hends : ∀ call ∈ ([.insert 1 0 ⟨50, 50⟩, .insert 2 0 ⟨55, 50⟩, .update 1 0 ⟨90, 50⟩] : List (AoiCall Nat Nat)),
      call.Exact 10 := by
    simp only [List.forall_mem_cons, List.not_mem_nil, false_imp_iff, implies_true, and_true, AoiCall.Exact]
    decide +kernel
  have hkeeps := keepsNear_of_exactAlong hin hends (hall ⟨0, 0, 100, 100⟩ 10 _ hin)
    [.insert 1 0 ⟨50, 50⟩, .insert 2 0 ⟨55, 50⟩] (.update 1 0 ⟨90, 50⟩) List.prefix_rfl
  have hone : ((runCalls ⟨0, 0, 100, 100⟩ 10
      ([.insert 1 0 ⟨50, 50⟩, .insert 2 0 ⟨55, 50⟩] : List (AoiCall Nat Nat))).object.lookup 1).map (·.pos) =
        some ⟨50, 50⟩ := by decide +kernel
  have htwo : ((runCalls ⟨0, 0, 100, 100⟩ 10
      ([.insert 1 0 ⟨50, 50⟩, .insert 2 0 ⟨55, 50⟩] : List (AoiCall Nat Nat))).object.lookup 2).map (·.pos) =
        some ⟨55, 50⟩ := by decide +kernel
  obtain ⟨c, hc, hcpos⟩ := Option.map_eq_some_iff.mp hone
  obtain ⟨ob, hob, hobpos⟩ := Option.map_eq_some_iff.mp htwo
  have hnear := hkeeps c hc 2 ob (by decide) hob
  rw [hcpos, hobpos, radius_runCalls] at hnear
  exact absurd (hnear (by decide +kernel : Near 10 ⟨50, 50⟩ ⟨55, 50⟩))
    (by decide +kernel : ¬ Near 10 ⟨90, 50⟩ ⟨55, 50⟩)

end Aoi

end SkynetServer.Map
