import SkynetServer.Skiplist.Insert

/-!
# Deletion

`slDeleteNode` takes a node out of the list: on its own levels the nodes of the path are linked to what it was linked to, on
the levels above they pass over one node less, and levels that are left without a node are given up. `slDelete` looks for
the node of an entry, `slDeleteByRank` takes out the nodes of a range of ranks one after the other. The path of its one
search stays right for all of them, because they are all behind it.
-/

namespace SkynetServer.Sl

open Lib

variable {α : Type}

/-! ### Links over a node that is gone -/

section

variable {i : Nat} {behind post : List (Cell α)} {c : Cell α}

theorem linkOf_from_old (h : ∀ y ∈ behind, y.height ≤ i) (hc : i < c.height) : linkOf i (behind ++ post) =
    ⟨(linkOf i post).forward, (linkOf i (behind ++ c :: post)).span + ((linkOf i post).span - 1)⟩ := by
  rw [linkOf_to_new post h hc, linkOf_append h]
  exact congrArg (Link.mk _) (by grind)

theorem linkOf_over_old (h : ∀ y ∈ behind, y.height ≤ i) (hc : c.height ≤ i) : linkOf i (behind ++ post) =
    ⟨(linkOf i (behind ++ c :: post)).forward, (linkOf i (behind ++ c :: post)).span - 1⟩ := by
  rw [linkOf_over_new h hc]
  cases linkOf i (behind ++ post) with
  | mk forward span => exact congrArg (Link.mk forward) (by grind)

theorem linkOf_forward_ne (h : ∀ y ∈ post, y.id ≠ c.id) : (linkOf i post).forward ≠ some c.id := by
  intro hf
  obtain ⟨y, hy, hid⟩ := Option.map_eq_some_iff.mp hf
  obtain ⟨r, s, rfl, -⟩ := nextAt_eq_some hy
  exact h y (by simp) hid

end

/-! ### The loops -/

theorem unlink_spec {h : Heap α} {x u : Id} {i : Nat} {l lx : Link} (hu : link h u i = some l)
    (hx : l.forward = some x → link h x i = some lx) : ∃ h', unlink h x u i = some h' ∧
      (∀ y j, link h' y j = if y = u ∧ j = i then
        some (if l.forward = some x then ⟨lx.forward, l.span + (lx.span - 1)⟩ else ⟨l.forward, l.span - 1⟩)
        else link h y j) ∧ ∀ y, shape h' y = shape h y := by
  obtain ⟨h', hset, hlink, hshape⟩ := setLink_spec
    (if l.forward = some x then ⟨lx.forward, l.span + (lx.span - 1)⟩ else ⟨l.forward, l.span - 1⟩) hu
  refine ⟨h', ?_, hlink, hshape⟩
  by_cases hf : l.forward = some x
  · rw [if_pos hf] at hset
    simp [unlink, hu, hf, hx hf, hset]
  · rw [if_neg hf] at hset
    simp [unlink, hu, hf, hset]

section

variable [Zero α] {sl : Skiplist α} {pre post : List (Cell α)} {last : Nat → Cell α} {behind : Nat → List (Cell α)}
  {c : Cell α}

theorem Linked.unlink_loop (hl : Linked sl (pre ++ c :: post)) (hpath : Path (headCell sl :: pre) sl.level last behind)
    {update : List Id} (hat : ∀ i < sl.level, update[i]? = some (last i).id) : ∃ h',
      (List.range sl.level).foldlM (fun h i => do
        let u ← update[i]?
        unlink h c.id u i) sl.heap = some h' ∧
      (∀ y j, link h' y j = if j < sl.level ∧ y = (last j).id then some (linkOf j (behind j ++ post))
        else link sl.heap y j) ∧ ∀ y, shape h' y = shape sl.heap y := by
  have hnodup := hl.nodup
  have hne : ∀ j < sl.level, c.id ≠ (last j).id := by
    intro j hj
    rw [← List.cons_append] at hnodup
    exact (name_ne_of_mem hnodup (hpath j hj).mem (by simp)).symm
  have hpost : ∀ y ∈ post, y.id ≠ c.id := by
    intro y hy
    have hnodup' : (([c] ++ post).map Cell.id).Nodup := hl.nodup.sublist (by simp)
    exact (name_ne_of_mem hnodup' (by simp) hy).symm
  rw [List.range_eq_range']
  refine foldlM_range'_of_invariant (fun i h' => (∀ y j, link h' y j =
    if j < i ∧ y = (last j).id then some (linkOf j (behind j ++ post)) else link sl.heap y j) ∧
    ∀ y, shape h' y = shape sl.heap y) (Nat.zero_add _) ⟨fun y j => by simp, fun y => rfl⟩ ?_
  rintro i h' - hi ⟨hlink, hshape⟩
  have hlast := hpath i hi
  have hu : link h' (last i).id i = some (linkOf i (behind i ++ c :: post)) := by
    rw [hlink, if_neg fun h => absurd h.1 (Nat.lt_irrefl i), hl.link_path hlast]
  have hx : (linkOf i (behind i ++ c :: post)).forward = some c.id → link h' c.id i = some (linkOf i post) := by
    intro hf
    have hc : i < c.height := by
      by_contra hc
      rw [linkOf_over_new hlast.behind (Nat.not_lt.mp hc), linkOf_append hlast.behind] at hf
      exact linkOf_forward_ne hpost hf
    rw [hlink, if_neg fun h => absurd h.1 (Nat.lt_irrefl i),
      hl.links (headCell sl :: pre) c post (by simp) i hc]
  obtain ⟨h'', hunlink, hlink', hshape'⟩ := unlink_spec hu hx
  refine ⟨h'', by simp [hat i hi, hunlink], fun y j => ?_, fun y => (hshape' y).trans (hshape y)⟩
  have hnew : (if (linkOf i (behind i ++ c :: post)).forward = some c.id then
      ⟨(linkOf i post).forward, (linkOf i (behind i ++ c :: post)).span + ((linkOf i post).span - 1)⟩
      else ⟨(linkOf i (behind i ++ c :: post)).forward, (linkOf i (behind i ++ c :: post)).span - 1⟩) =
      linkOf i (behind i ++ post) := by
    by_cases hc : i < c.height
    · rw [if_pos (by rw [linkOf_to_new post hlast.behind hc]), ← linkOf_from_old hlast.behind hc]
    · have hc := Nat.not_lt.mp hc
      rw [if_neg, ← linkOf_over_old hlast.behind hc]
      rw [linkOf_over_new hlast.behind hc, linkOf_append hlast.behind]
      exact linkOf_forward_ne hpost
  rw [hlink', hnew, hlink]
  by_cases hj : j = i
  · subst hj
    simp
  · have hiff : j < i + 1 ↔ j < i := by omega
    simp [hj, hiff]

omit [Zero α] in
/-- The levels that are given up are those on which the header has no successor. -/
theorem shrink_spec {h : Heap α} {header : Id} {level : Nat} {f : Nat → Option Id} (hpos : 0 < level)
    (hlink : ∀ i < level, ∃ span, link h header i = some ⟨f i, span⟩) : ∃ level', shrink h header level = some level' ∧
      0 < level' ∧ level' ≤ level ∧ (∀ i, level' ≤ i → i < level → f i = none) ∧
      (level' = 1 ∨ f (level' - 1) ≠ none) := by
  induction level with
  | zero => omega
  | succ n ih =>
    cases n with
    | zero => exact ⟨1, rfl, by omega, by omega, fun i _ _ => by omega, .inl rfl⟩
    | succ n =>
      obtain ⟨span, hspan⟩ := hlink (n + 1) (by omega)
      rw [shrink, hspan]
      by_cases hf : f (n + 1) = none
      · obtain ⟨level', hrun, hpos', hle, hnone, htight⟩ := ih (by omega) fun i hi => hlink i (by omega)
        refine ⟨level', by simp [hf, hrun], hpos', by omega, fun i hi hi' => ?_, htight⟩
        rcases Nat.lt_or_ge i (n + 1) with h | h
        · exact hnone i hi h
        · rwa [show i = n + 1 by omega]
      · exact ⟨n + 2, by simp [hf], by omega, by omega, fun i _ _ => by omega, .inr hf⟩

/-! ### The list without the node -/

/-- **The list without a node.** A heap in which the node is freed, and the path and the node behind it are linked past it,
holds the list without it. -/
theorem Linked.remove (hl : Linked sl (pre ++ c :: post)) (hpath : Path (headCell sl :: pre) sl.level last behind)
    {h' : Heap α} (hlink : ∀ y j, y ≠ c.id → link h' y j =
      if j < sl.level ∧ y = (last j).id then some (linkOf j (behind j ++ post)) else link sl.heap y j)
    (hgone : shape h' c.id = none)
    (hnext : ∀ p ∈ post.head?, shape h' p.id =
      some (some p.entry.obj, p.entry.score, pre.getLast?.map Cell.id, p.height))
    (hrest : ∀ y, y ≠ c.id → (∀ p ∈ post.head?, y ≠ p.id) → shape h' y = shape sl.heap y) {tail : Option Id}
    (htail : tail = (pre ++ post).getLast?.map Cell.id) :
    Linked { sl with heap := h', tail, length := sl.length - 1 } (pre ++ post) := by
  have hperm := perm_cells sl pre post c
  obtain ⟨hc, hnodup⟩ := List.nodup_cons.mp (hperm.nodup_iff.mp hl.nodup)
  have hne : ∀ y ∈ headCell sl :: (pre ++ post), y.id ≠ c.id := fun y hy h => hc (h ▸ List.mem_map_of_mem hy)
  have hheader : sl.header ≠ c.id := hne (headCell sl) List.mem_cons_self
  have hlink' : ∀ y ∈ headCell sl :: (pre ++ post), ∀ j, link h' y.id j =
      if j < sl.level ∧ y.id = (last j).id then some (linkOf j (behind j ++ ([] ++ post))) else link sl.heap y.id j :=
    fun y hy j => hlink y.id j (hne y hy)
  have hrest' : ∀ y ∈ pre ++ post, (∀ p ∈ post.head?, y.id ≠ p.id) → shape h' y.id = shape sl.heap y.id :=
    fun y hy => hrest y.id (hne y (List.mem_cons_of_mem _ hy))
  have hmem : ∀ d ∈ pre ++ post, d ∈ pre ++ c :: post := fun d hd => by
    rw [List.mem_append, List.mem_cons]
    exact (List.mem_append.mp hd).imp_right .inr
  refine { hl with
    links := fun front x rest hx i hi => ?links
    shapes := fun front x rest hx => ?shapes
    header := (hrest sl.header hheader (hl.header_ne_next [c])).trans hl.header
    above := fun i hi hmax => hl.above_congr hi hmax ?above
    nodup := hnodup
    live := fun y => ?live
    fresh := ?fresh
    heights := fun d hd => hl.heights d (hmem d hd)
    tail := htail
    length := ?length }
  case links =>
    rw [← List.cons_append] at hx
    rcases append_eq_append_cons hx with ⟨r, hr, rfl⟩ | ⟨r, -, hr⟩
    · exact hl.links_front [c] hpath hlink' hr hi
    · exact hl.links_behind [c] hpath hlink' hr hi
  case shapes =>
    rcases append_eq_append_cons hx with ⟨r, hr, -⟩ | ⟨r, hfront, hr⟩
    · exact hl.shapes_front [c] hrest' hr
    · have hnext' : ∀ p ∈ post.head?, shape h' p.id =
          some (some p.entry.obj, p.entry.score, (pre ++ []).getLast?.map Cell.id, p.height) := by
        simpa using hnext
      have := hl.shapes_behind [c] hnext' hrest' hr
      rwa [List.append_nil, ← hfront] at this
  case above =>
    rw [hlink _ _ hheader, if_neg fun h => absurd h.1 (Nat.not_lt.mpr hi)]
  case live =>
    refine (not_congr shape_eq_none_iff).symm.trans ?_
    show shape h' y ≠ none ↔ y ∈ (headCell sl :: (pre ++ post)).map Cell.id
    by_cases hy : y = c.id
    · rw [hy]
      exact iff_of_false (fun h => h hgone) hc
    · rw [hl.shape_ne_none_congr [c] hnext (hrest y hy), hl.shape_ne_none_iff, hperm.mem_iff, List.mem_cons,
        or_iff_right hy]
  case fresh =>
    exact List.forall_mem_cons.mpr ⟨hl.fresh (headCell sl) List.mem_cons_self,
      fun d hd => hl.fresh d (List.mem_cons_of_mem _ (hmem d hd))⟩
  case length =>
    show sl.length - 1 = _
    rw [hl.length]
    simp only [List.length_append, List.length_cons]
    omega

theorem Linked.lower {cells : List (Cell α)} (hl : Linked sl cells) {level : Nat} (hpos : 0 < level) (hle : level ≤ sl.level)
    (hheights : ∀ d ∈ cells, d.height ≤ level) : Linked { sl with level } cells := by
  refine ⟨fun front x behind hx i hi => ?_, hl.shapes, hl.header, fun i hi hmax => ?_, hl.nodup, hl.live, ?_,
    fun d hd => ⟨(hl.heights d hd).1, hheights d hd⟩, hpos, Nat.le_trans hle hl.level_le, hl.tail, hl.length⟩
  · cases front with
    | nil =>
      obtain ⟨rfl, rfl⟩ := List.cons.inj hx
      exact hl.links [] (headCell sl) _ rfl i (Nat.lt_of_lt_of_le hi hle)
    | cons d front => exact hl.links (headCell sl :: front) x behind (congrArg _ (List.cons.inj hx).2) i hi
  · by_cases hi' : sl.level ≤ i
    · exact hl.above i hi' hmax
    · refine ⟨UInt32.ofNat cells.length, (hl.links [] (headCell sl) cells rfl i (Nat.not_le.mp hi')).trans ?_⟩
      rw [linkOf, nextAt_of_le fun d hd => Nat.le_trans (hheights d hd) hi]
      rfl
  · exact List.forall_mem_cons.mpr ⟨hl.fresh (headCell sl) List.mem_cons_self,
      fun d hd => hl.fresh d (List.mem_cons_of_mem _ hd)⟩

/-! ### `slDeleteNode` -/

/-- No level is in use that no node has. -/
def Tight (sl : Skiplist α) (cells : List (Cell α)) : Prop := sl.level = 1 ∨ ∃ d ∈ cells, d.height = sl.level

omit [Zero α] in
theorem linkOf_forward_eq_none_iff {i : Nat} {cells : List (Cell α)} :
    (linkOf i cells).forward = none ↔ ∀ d ∈ cells, d.height ≤ i := by
  rw [linkOf, Option.map_eq_none_iff, nextAt_fst_eq_none_iff]

omit [Zero α] in
theorem link_free {h : Heap α} {x : Id} (y : Id) (i : Nat) :
    link (Function.update h x none) y i = if y = x then none else link h y i := by
  by_cases hy : y = x
  · simp [link, hy]
  · simp [link, hy]

omit [Zero α] in
theorem shape_free {h : Heap α} {x : Id} (y : Id) :
    shape (Function.update h x none) y = if y = x then none else shape h y := by
  by_cases hy : y = x
  · simp [shape, hy]
  · simp [shape, hy]

omit [Zero α] in
theorem slFreeNode_spec {h : Heap α} {x : Id} {obj : Obj} {score : α} {backward : Option Id} {n : Nat}
    (hs : shape h x = some (some obj, score, backward, n)) : slFreeNode h x = some (Function.update h x none) := by
  obtain ⟨level, hnode, -⟩ := shape_eq_some hs
  simp [slFreeNode, hnode]

theorem Linked.bypass_spec (hl : Linked sl (pre ++ c :: post)) {h : Heap α} (hshape : ∀ y, shape h y = shape sl.heap y) :
    ∃ h' tail, bypass h sl.tail (linkOf 0 post).forward (pre.getLast?.map Cell.id) = some (h', tail) ∧
      (∀ y j, link h' y j = link h y j) ∧
      (∀ p ∈ post.head?, shape h' p.id = some (some p.entry.obj, p.entry.score, pre.getLast?.map Cell.id, p.height)) ∧
      (∀ y, (∀ p ∈ post.head?, y ≠ p.id) → shape h' y = shape sl.heap y) ∧
      tail = (pre ++ post).getLast?.map Cell.id := by
  have hzero : (linkOf 0 post).forward = post.head?.map Cell.id :=
    (show Linked sl ((pre ++ [c]) ++ post) by simpa using hl).linkOf_zero
  rw [hzero]
  cases post with
  | nil => exact ⟨h, pre.getLast?.map Cell.id, rfl, fun _ _ => rfl, by simp, fun y _ => hshape y, by simp⟩
  | cons p post =>
    have hp := hl.shapes (pre ++ [c]) p post (by simp)
    obtain ⟨h', hset, hlink, hshape'⟩ := setBackward_spec (pre.getLast?.map Cell.id) ((hshape p.id).trans hp)
    refine ⟨h', sl.tail, by simp [bypass, hset], hlink, fun q hq => ?_, fun y hy => ?_, ?_⟩
    · obtain rfl : p = q := by simpa using hq
      rw [hshape', if_pos rfl]
    · rw [hshape', if_neg (hy p rfl), hshape]
    · rw [hl.tail]
      simp [List.getLast?_append, List.getLast?_cons]

/-- The nodes at which a search stopped, to which the nodes behind the place it is for are linked. -/
def Marks (sl : Skiplist α) (pre : List (Cell α)) (update : List Id) : Prop :=
  ∀ i < sl.level, ∃ y t, LastAt Cell.height i (headCell sl :: pre) y t ∧ update[i]? = some y.id

theorem marks_of_stops {τ : Type} {count : Nat → τ} {path : List (Id × τ)} (hlen : path.length = sl.level)
    (hstops : ∀ i at_, path[i]? = some at_ → Stops (headCell sl :: pre) count i at_) :
    Marks sl pre (path.map Prod.fst) := by
  intro i hi
  obtain ⟨y, t, hlast, hat⟩ := exists_stop hlen hstops i hi
  exact ⟨y, t, hlast, by simp [hat]⟩

/-- **Taking out a node.** The node is still there when it is freed, and the list without it is left. -/
theorem Linked.slDeleteNode_spec (hl : Linked sl (pre ++ c :: post)) {update : List Id} (hmarks : Marks sl pre update) :
    ∃ sl' node, slDeleteNode sl c.id update = some sl' ∧ sl'.heap c.id = some node ∧ node.obj = some c.entry.obj ∧ ∃ h', slFreeNode sl'.heap c.id = some h' ∧
      Linked { sl' with heap := h' } (pre ++ post) ∧ Tight { sl' with heap := h' } (pre ++ post) ∧
      sl'.header = sl.header ∧ sl'.level ≤ sl.level := by
  obtain ⟨last, behind, hpath, hat⟩ := exists_path hmarks
  obtain ⟨h₁, hloop, hlink₁, hshape₁⟩ := hl.unlink_loop hpath hat
  have hnodup := hl.nodup
  have hne : ∀ j < sl.level, c.id ≠ (last j).id := by
    intro j hj
    rw [← List.cons_append] at hnodup
    exact (name_ne_of_mem hnodup (hpath j hj).mem (by simp)).symm
  have hnextne : ∀ p ∈ post.head?, c.id ≠ p.id := by
    intro p hp
    have hnodup' : (([c] ++ post).map Cell.id).Nodup := hl.nodup.sublist (by simp)
    exact name_ne_of_mem hnodup' (by simp) (List.mem_of_mem_head? hp)
  have hfirst : link h₁ c.id 0 = some (linkOf 0 post) := by
    rw [hlink₁, if_neg fun h => hne 0 h.1 h.2,
      hl.links (headCell sl :: pre) c post (by simp) 0 (hl.heights c (by simp)).1]
  have hc := hl.shapes pre c post rfl
  obtain ⟨level₁, hnode₁, -⟩ := shape_eq_some ((hshape₁ c.id).trans hc)
  obtain ⟨h₂, tail, hbypass, hlink₂, hnext₂, hrest₂, htail⟩ := hl.bypass_spec hshape₁
  have hshape₂ := (hrest₂ c.id hnextne).trans hc
  obtain ⟨level₂, hnode₂, -⟩ := shape_eq_some hshape₂
  have hl' : Linked { sl with heap := Function.update h₂ c.id none, tail, length := sl.length - 1 } (pre ++ post) := by
    refine hl.remove hpath (fun y j hy => ?_) ?_ (fun p hp => ?_) (fun y hy hp => ?_) htail
    · rw [link_free, if_neg hy, hlink₂, hlink₁]
    · rw [shape_free, if_pos rfl]
    · rw [shape_free, if_neg (hnextne p hp).symm, hnext₂ p hp]
    · rw [shape_free, if_neg hy, hrest₂ y hp]
  have hheader : sl.header ≠ c.id := by
    rw [← List.cons_append] at hnodup
    exact name_ne_of_mem (x := headCell sl) hnodup List.mem_cons_self List.mem_cons_self
  have hlevels : ∀ i < sl.level, ∃ span, link h₂ sl.header i = some ⟨(linkOf i (pre ++ post)).forward, span⟩ := by
    intro i hi
    have := hl'.links [] (headCell _) (pre ++ post) rfl i hi
    rw [link_free] at this
    exact ⟨_, (if_neg hheader).symm.trans this⟩
  obtain ⟨level, hshrink, hpos, hle, hnone, htight⟩ := shrink_spec hl.level_pos hlevels
  have hheights : ∀ d ∈ pre ++ post, d.height ≤ level := by
    rcases Nat.lt_or_ge level sl.level with hlt | hge
    · exact linkOf_forward_eq_none_iff.mp (hnone level (Nat.le_refl _) hlt)
    · exact fun d hd => Nat.le_trans (hl'.heights d hd).2 hge
  refine ⟨{ sl with heap := h₂, tail, level, length := sl.length - 1 }, _, ?_, hnode₂, rfl, _, slFreeNode_spec hshape₂,
    hl'.lower hpos hle hheights, htight.imp_right fun h => ?_, rfl, hle⟩
  · rw [slDeleteNode, hloop]
    simp [hfirst, hnode₁, hbypass, hshrink]
  · have := mt linkOf_forward_eq_none_iff.mpr h
    push Not at this
    obtain ⟨d, hd, hlt⟩ := this
    exact ⟨d, hd, Nat.le_antisymm (hheights d hd) (by show level ≤ d.height; omega)⟩

/-- The search of a later deletion is not needed: the marks stay right when levels are given up. -/
theorem Marks.mono {update : List Id} (h : Marks sl pre update) {sl' : Skiplist α} (hheader : sl'.header = sl.header)
    (hlevel : sl'.level ≤ sl.level) : Marks sl' pre update := by
  intro i hi
  obtain ⟨y, t, hlast, hat⟩ := h i (Nat.lt_of_lt_of_le hi hlevel)
  have hstop : Stops (headCell sl :: pre) (fun _ => ()) i (y.id, ()) := ⟨y, t, hlast, rfl⟩
  obtain ⟨y', t', hlast', heq⟩ := hstop.head (headCell sl') hheader.symm hi
  exact ⟨y', t', hlast', hat.trans (congrArg (fun p : Id × Unit => some p.1) heq)⟩

/-! ### `slDelete` -/

theorem Linked.next_of_stop (hl : Linked sl (pre ++ post)) {τ : Type} {count : Nat → τ} {path : List (Id × τ)}
    (hlen : path.length = sl.level) (hstops : ∀ i at_, path[i]? = some at_ → Stops (headCell sl :: pre) count i at_) :
    ∃ y, path[0]? = some (y, count pre.length) ∧ link sl.heap y 0 = some (linkOf 0 post) := by
  obtain ⟨y, t, hlast, hat⟩ := exists_stop hlen hstops 0 hl.level_pos
  obtain rfl := hlast.behind_eq_nil fun d hd => hl.height_pos d (by
    rw [← List.cons_append]
    exact List.mem_append_left post hd)
  exact ⟨y.id, hat, hl.link_path hlast⟩

/-- **Deletion.** The first node whose entry does not come before the one looked for is taken out, if it is its own. -/
theorem Linked.slDelete_spec [LinearOrder α] (hl : Linked sl (pre ++ post)) {e : Entry α}
    (hshort : ∀ d ∈ pre ++ post, Short d.entry.obj) (he : Short e.obj) (hpre : ∀ d ∈ pre, d.entry < e)
    (hpost : ∀ d ∈ post, e ≤ d.entry) :
    (∀ d rest, post = d :: rest → d.entry = e → ∃ sl', slDelete sl e.score e.obj = some (true, sl') ∧
      Linked sl' (pre ++ rest) ∧ Tight sl' (pre ++ rest)) ∧
    ((∀ d ∈ post.head?, d.entry ≠ e) → slDelete sl e.score e.obj = some (false, sl)) := by
  obtain ⟨path, hdescend, hlen, hstops⟩ := hl.descend_spec
    (hl.guide_lt (fun _ _ => ()) (fun _ => ()) hshort he hpre hpost fun _ _ => rfl)
  obtain ⟨y, hy, hnext⟩ := hl.next_of_stop hlen hstops
  rw [slDelete, hdescend]
  simp only [Option.bind_eq_bind, Option.bind_some, hy, hnext, hl.linkOf_zero]
  constructor
  · rintro d rest rfl rfl
    obtain ⟨sl', node', hdelete, hnode', hobj, h', hfree, hl', htight, -, -⟩ :=
      hl.slDeleteNode_spec (marks_of_stops hlen hstops)
    obtain ⟨level, hnode, -⟩ := shape_eq_some (hl.shapes pre d rest rfl)
    refine ⟨{ sl' with heap := h' }, ?_, hl', htight⟩
    have hequal : equalslObj d.entry.obj d.entry.obj = true := (equalslObj_iff he he).mpr rfl
    simp [hnode, hequal, hdelete, hfree]
  · intro hne
    cases post with
    | nil => rfl
    | cons d rest =>
      obtain ⟨level, hnode, -⟩ := shape_eq_some (hl.shapes pre d rest rfl)
      have hd := hne d rfl
      by_cases hscore : e.score = d.entry.score
      · have hobj : equalslObj d.entry.obj e.obj = false := by
          rw [Bool.eq_false_iff]
          intro h
          have hobj := (equalslObj_iff (hshort d (by simp)) he).mp h
          exact hd (ofLex.injective (Prod.ext hscore.symm hobj))
        simp [hnode, hscore, hobj]
      · simp [hnode, hscore]

/-! ### `slDeleteByRank` -/

theorem Linked.slDeleteByRankFrom_spec {rest : List (Cell α)} (hl : Linked sl (pre ++ rest)) (htight : Tight sl (pre ++ rest))
    {update : List Id} (hmarks : Marks sl pre update) {fuel : Nat} (hfuel : rest.length < fuel) (last : UInt32)
    (traversed : Nat) : ∃ sl', slDeleteByRankFrom update last fuel (rest.head?.map Cell.id) traversed sl =
        some ((rest.take (last.toNat + 1 - traversed)).map fun d => d.entry.obj, sl') ∧
      Linked sl' (pre ++ rest.drop (last.toNat + 1 - traversed)) ∧
      Tight sl' (pre ++ rest.drop (last.toNat + 1 - traversed)) := by
  induction rest generalizing sl fuel traversed with
  | nil => exact ⟨sl, by simp [slDeleteByRankFrom], by simpa using hl, by simpa using htight⟩
  | cons c rest ih =>
    obtain ⟨fuel, rfl⟩ : ∃ n, fuel = n + 1 := ⟨fuel - 1, by omega⟩
    rw [List.head?_cons, Option.map_some, slDeleteByRankFrom]
    by_cases hle : traversed ≤ last.toNat
    · have hn : last.toNat + 1 - traversed = (last.toNat + 1 - (traversed + 1)) + 1 := by omega
      have hnext : link sl.heap c.id 0 = some (linkOf 0 rest) :=
        hl.links (headCell sl :: pre) c rest (by simp) 0 (hl.heights c (by simp)).1
      have hzero : (linkOf 0 rest).forward = rest.head?.map Cell.id :=
        (show Linked sl ((pre ++ [c]) ++ rest) by simpa using hl).linkOf_zero
      obtain ⟨sl₁, node, hdelete, hnode, hobj, h', hfree, hl₁, htight₁, hheader, hlevel⟩ := hl.slDeleteNode_spec hmarks
      obtain ⟨sl', hrun, hl', htight'⟩ := ih hl₁ htight₁ (hmarks.mono hheader hlevel) (Nat.lt_of_succ_lt_succ hfuel)
        (traversed + 1)
      rw [hn, List.take_succ_cons, List.drop_succ_cons]
      refine ⟨sl', ?_, hl', htight'⟩
      simp [hle, hnext, hdelete, hnode, hobj, hfree, hzero, hrun]
    · have hn : last.toNat + 1 - traversed = 0 := by omega
      rw [hn, if_neg hle]
      exact ⟨sl, rfl, hl, htight⟩

/-- **Deletion by rank.** The members of the ranks from `start` to `last` are handed out in their order and taken out. -/
theorem Linked.slDeleteByRank_spec {cells : List (Cell α)} (hl : Linked sl cells) (htight : Tight sl cells)
    (hlen : cells.length < 0x100000000) (start last : UInt32) : ∃ sl', slDeleteByRank sl start last =
        some (((cells.take last.toNat).drop (start.toNat - 1)).map fun d => d.entry.obj, sl') ∧
      Linked sl' (cells.take (start.toNat - 1) ++ cells.drop (max (start.toNat - 1) last.toNat)) ∧
      Tight sl' (cells.take (start.toNat - 1) ++ cells.drop (max (start.toNat - 1) last.toNat)) := by
  obtain ⟨pre, rest, hpre, hrest⟩ : ∃ pre rest, pre = cells.take (start.toNat - 1) ∧ rest = cells.drop (start.toNat - 1) :=
    ⟨_, _, rfl, rfl⟩
  have hsplit : cells = pre ++ rest := by rw [hpre, hrest, List.take_append_drop]
  have hprelen : pre.length = min (start.toNat - 1) cells.length := by rw [hpre, List.length_take]
  have hl' : Linked sl (pre ++ rest) := hsplit ▸ hl
  obtain ⟨path, hdescend, hlength, hstops⟩ := hl'.descend_spec
    (guide_of_rank (fun k => decide (k < start.toNat)) (fun k hpos hk => by
      rw [← hsplit] at hk
      exact decide_eq_decide.mpr (by omega)) (hsplit ▸ hlen))
  obtain ⟨y, hy, hnext⟩ := hl'.next_of_stop hlength hstops
  have hfuel : rest.length < sl.length + 1 := by
    rw [hl'.length, List.length_append]
    omega
  obtain ⟨sl', hrun, hlinked, htight'⟩ := hl'.slDeleteByRankFrom_spec (hsplit ▸ htight) (marks_of_stops hlength hstops)
    hfuel last (pre.length + 1)
  have hremoved : rest.take (last.toNat + 1 - (pre.length + 1)) = (cells.take last.toNat).drop (start.toNat - 1) := by
    rw [hrest, List.drop_take]
    rcases Nat.lt_or_ge cells.length (start.toNat - 1) with h | h
    · rw [List.drop_eq_nil_of_le (Nat.le_of_lt h), List.take_nil, List.take_nil]
    · exact congrArg (fun n => List.take n _) (by omega)
  have hleft : rest.drop (last.toNat + 1 - (pre.length + 1)) = cells.drop (max (start.toNat - 1) last.toNat) := by
    rw [hrest, List.drop_drop]
    rcases Nat.lt_or_ge cells.length (start.toNat - 1) with h | h
    · rw [List.drop_eq_nil_of_le (by omega), List.drop_eq_nil_of_le (by omega)]
    · exact congrArg (fun n => List.drop n _) (by omega)
  rw [hremoved] at hrun
  rw [hleft, hpre] at hlinked htight'
  refine ⟨sl', ?_, hlinked, htight'⟩
  rw [slDeleteByRank]
  show (do
    let path ← descend sl.heap _ _ (sl.length + 1) sl.level sl.header (id 0)
    _) = _
  rw [hdescend]
  simp only [Option.bind_eq_bind, Option.bind_some, hy, hnext, hl'.linkOf_zero]
  exact hrun

end

end SkynetServer.Sl
