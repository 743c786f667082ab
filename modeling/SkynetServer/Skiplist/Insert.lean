import SkynetServer.Lib.Run
import SkynetServer.Skiplist.Search

/-!
# Insertion

`slInsert` puts the new node behind the nodes whose entries come before its own. On each level the node at which the search
stopped is the one whose link has to change: on the levels of the new node it leads to it, on the levels above it passes
over one more node. The links of all other nodes stay right, because each of them ends in front of the new node or starts
behind it.
-/

namespace SkynetServer.Sl

open Lib

variable {α : Type}

/-! ### Links over a new node -/

section

variable {i : Nat} {behind post : List (Cell α)} {c : Cell α}

/-- What is behind a node that has the level does not matter for the links to it. -/
theorem linkOf_append_congr {y : Cell α} (hy : y ∈ behind) (hi : i < y.height) (s t : List (Cell α)) :
    linkOf i (behind ++ s) = linkOf i (behind ++ t) := by
  rw [linkOf, linkOf, nextAt_append_of_lt hy hi]

theorem linkOf_append (h : ∀ y ∈ behind, y.height ≤ i) (s : List (Cell α)) :
    linkOf i (behind ++ s) = ⟨(linkOf i s).forward, UInt32.ofNat behind.length + (linkOf i s).span⟩ := by
  simp only [linkOf, nextAt_append_of_le h, UInt32.ofNat_add]

theorem linkOf_cons_of_lt (h : i < c.height) : linkOf i (c :: post) = ⟨some c.id, 1⟩ := by
  rw [linkOf, nextAt_cons_of_lt h]
  rfl

theorem linkOf_cons_of_le (h : c.height ≤ i) :
    linkOf i (c :: post) = ⟨(linkOf i post).forward, (linkOf i post).span + 1⟩ := by
  simp only [linkOf, nextAt, if_neg (Nat.not_lt.mpr h), UInt32.ofNat_add]
  rfl

theorem linkOf_new (h : ∀ y ∈ behind, y.height ≤ i) : linkOf i post =
    ⟨(linkOf i (behind ++ post)).forward, (linkOf i (behind ++ post)).span - UInt32.ofNat behind.length⟩ := by
  rw [linkOf_append h]
  cases linkOf i post with
  | mk forward span => exact congrArg (Link.mk forward) (by grind)

theorem linkOf_to_new (post : List (Cell α)) (h : ∀ y ∈ behind, y.height ≤ i) (hc : i < c.height) :
    linkOf i (behind ++ c :: post) = ⟨some c.id, UInt32.ofNat behind.length + 1⟩ := by
  rw [linkOf_append h, linkOf_cons_of_lt hc]

/-- The link over the new node, above its levels. -/
theorem linkOf_over_new (h : ∀ y ∈ behind, y.height ≤ i) (hc : c.height ≤ i) : linkOf i (behind ++ c :: post) =
    ⟨(linkOf i (behind ++ post)).forward, (linkOf i (behind ++ post)).span + 1⟩ := by
  rw [linkOf_append h, linkOf_append h, linkOf_cons_of_le hc]
  exact congrArg (Link.mk _) (by grind)

end

/-! ### The way down, level by level -/

/-- The nodes `last` at which a search stopped on the levels below `n`, and the nodes between each of them and the place the
search is for. -/
def Path (full : List (Cell α)) (n : Nat) (last : Nat → Cell α) (behind : Nat → List (Cell α)) : Prop :=
  ∀ i < n, LastAt Cell.height i full (last i) (behind i)

theorem exists_path [Zero α] {full : List (Cell α)} {n : Nat} {p : Nat → Cell α → List (Cell α) → Prop}
    (h : ∀ i < n, ∃ y t, LastAt Cell.height i full y t ∧ p i y t) :
    ∃ last behind, Path full n last behind ∧ ∀ i < n, p i (last i) (behind i) := by
  have hex : ∀ i, ∃ at_ : Cell α × List (Cell α), i < n → LastAt Cell.height i full at_.1 at_.2 ∧ p i at_.1 at_.2 := by
    intro i
    by_cases hi : i < n
    · obtain ⟨y, t, hyt⟩ := h i hi
      exact ⟨(y, t), fun _ => hyt⟩
    · exact ⟨(⟨0, toLex (0, []), 0⟩, []), fun h => absurd h hi⟩
  choose at_ hat using hex
  exact ⟨fun i => (at_ i).1, fun i => (at_ i).2, fun i hi => (hat i hi).1, fun i hi => (hat i hi).2⟩

/-! ### The loops -/

theorem splice_spec {h : Heap α} {x u : Id} {i : Nat} {l lx : Link} (between : UInt32) (hu : link h u i = some l)
    (hx : link h x i = some lx) (hne : u ≠ x) : ∃ h', splice h x u i between = some h' ∧
      (∀ y j, link h' y j = if y = x ∧ j = i then some ⟨l.forward, l.span - between⟩
        else if y = u ∧ j = i then some ⟨some x, between + 1⟩ else link h y j) ∧ ∀ y, shape h' y = shape h y := by
  obtain ⟨h₁, hset₁, hlink₁, hshape₁⟩ := setLink_spec ⟨l.forward, l.span - between⟩ hx
  have hu₁ : link h₁ u i = some l := by rw [hlink₁, if_neg (fun h => hne h.1), hu]
  obtain ⟨h₂, hset₂, hlink₂, hshape₂⟩ := setLink_spec ⟨some x, between + 1⟩ hu₁
  refine ⟨h₂, by simp [splice, hu, hset₁, hset₂], fun y j => ?_, fun y => (hshape₂ y).trans (hshape₁ y)⟩
  rw [hlink₂, hlink₁]
  by_cases hyx : y = x ∧ j = i
  · rw [if_pos hyx, if_pos hyx, if_neg fun hyu : y = u ∧ j = i => hne (hyu.1.symm.trans hyx.1)]
  · rw [if_neg hyx, if_neg hyx]

theorem widen_spec {h : Heap α} {u : Id} {i : Nat} {l : Link} (hu : link h u i = some l) : ∃ h', widen h u i = some h' ∧
    (∀ y j, link h' y j = if y = u ∧ j = i then some ⟨l.forward, l.span + 1⟩ else link h y j) ∧
      ∀ y, shape h' y = shape h y := by
  obtain ⟨h', hset, hlink, hshape⟩ := setLink_spec ⟨l.forward, l.span + 1⟩ hu
  exact ⟨h', by simp [widen, hu, hset], hlink, hshape⟩

section

variable {full post : List (Cell α)} {last : Nat → Cell α} {behind : Nat → List (Cell α)} {h : Heap α} {n : Nat}

theorem splice_loop {c : Cell α} (hpath : Path full n last behind) (hle : c.height ≤ n) (hne : ∀ i < n, (last i).id ≠ c.id)
    (hold : ∀ i < n, link h (last i).id i = some (linkOf i (behind i ++ post)))
    (hnew : ∀ i < c.height, ∃ l, link h c.id i = some l) {step : Heap α → Nat → Option (Heap α)}
    (hstep : ∀ h, ∀ i < c.height, step h i = splice h c.id (last i).id i (UInt32.ofNat (behind i).length)) :
    ∃ h', (List.range c.height).foldlM step h = some h' ∧
      (∀ y j, link h' y j = if j < c.height ∧ y = c.id then some (linkOf j post)
        else if j < c.height ∧ y = (last j).id then some (linkOf j (behind j ++ c :: post)) else link h y j) ∧
      ∀ y, shape h' y = shape h y := by
  rw [List.range_eq_range']
  refine foldlM_range'_of_invariant (fun i h' => (∀ y j, link h' y j = if j < i ∧ y = c.id then some (linkOf j post)
      else if j < i ∧ y = (last j).id then some (linkOf j (behind j ++ c :: post)) else link h y j) ∧
      ∀ y, shape h' y = shape h y) (Nat.zero_add _) ⟨fun y j => by simp, fun y => rfl⟩ ?_
  · rintro i h' - hi ⟨hlink, hshape⟩
    have hshort := (hpath i (by omega)).behind
    have hu : link h' (last i).id i = some (linkOf i (behind i ++ post)) := by
      rw [hlink, if_neg (fun hj => absurd hj.1 (Nat.lt_irrefl i)), if_neg (fun hj => absurd hj.1 (Nat.lt_irrefl i)),
        hold i (by omega)]
    obtain ⟨lx, hlx⟩ := hnew i hi
    have hx : link h' c.id i = some lx := by
      rw [hlink, if_neg (fun hj => absurd hj.1 (Nat.lt_irrefl i)), if_neg (fun hj => absurd hj.1 (Nat.lt_irrefl i)), hlx]
    obtain ⟨h'', hsplice, hlink', hshape'⟩ := splice_spec (UInt32.ofNat (behind i).length) hu hx (hne i (by omega))
    refine ⟨h'', (hstep h' i hi).trans hsplice, fun y j => ?_, fun y => (hshape' y).trans (hshape y)⟩
    rw [hlink', ← linkOf_new hshort, ← linkOf_to_new post hshort hi, hlink]
    by_cases hj : j = i
    · subst hj
      by_cases hy : y = c.id
      · simp [hy]
      · by_cases hy' : y = (last j).id
        · have : (last j).id ≠ c.id := hne j (by omega)
          simp [hy', this]
        · simp [hy, hy']
    · have hiff : j < i + 1 ↔ j < i := by omega
      simp [hj, hiff]

theorem widen_loop {c : Cell α} (hpath : Path full n last behind) (hle : c.height ≤ n)
    (hold : ∀ i < n, c.height ≤ i → link h (last i).id i = some (linkOf i (behind i ++ post)))
    {step : Heap α → Nat → Option (Heap α)} (hstep : ∀ h, ∀ i < n, step h i = widen h (last i).id i) :
    ∃ h', (List.range' c.height (n - c.height)).foldlM step h = some h' ∧
      (∀ y j, link h' y j = if (c.height ≤ j ∧ j < n) ∧ y = (last j).id then some (linkOf j (behind j ++ c :: post))
        else link h y j) ∧ ∀ y, shape h' y = shape h y := by
  refine foldlM_range'_of_invariant (fun i h' => (∀ y j, link h' y j =
      if (c.height ≤ j ∧ j < i) ∧ y = (last j).id then some (linkOf j (behind j ++ c :: post)) else link h y j) ∧
      ∀ y, shape h' y = shape h y) (by omega) ⟨fun y j => ?_, fun y => rfl⟩ ?_
  · rw [if_neg (fun hj => by omega)]
  · rintro i h' hci hi ⟨hlink, hshape⟩
    have hu : link h' (last i).id i = some (linkOf i (behind i ++ post)) := by
      rw [hlink, if_neg (fun hj => absurd hj.1.2 (Nat.lt_irrefl i)), hold i (by omega) hci]
    obtain ⟨h'', hwiden, hlink', hshape'⟩ := widen_spec hu
    refine ⟨h'', (hstep h' i (by omega)).trans hwiden, fun y j => ?_, fun y => (hshape' y).trans (hshape y)⟩
    rw [hlink', ← linkOf_over_new (hpath i (by omega)).behind hci, hlink]
    by_cases hj : j = i
    · subst hj
      simp [hci]
    · have hiff : j < i + 1 ↔ j < i := by omega
      simp [hj, hiff]

end

/-! ### The new list -/

section

variable [Zero α] {sl : Skiplist α} {pre post : List (Cell α)} {last : Nat → Cell α} {behind : Nat → List (Cell α)}

theorem Linked.fresh_notMem {cells : List (Cell α)} (hl : Linked sl cells) :
    sl.fresh ∉ (headCell sl :: cells).map Cell.id := by
  intro hmem
  obtain ⟨c, hc, hid⟩ := List.mem_map.mp hmem
  exact Nat.lt_irrefl _ (hid ▸ hl.fresh c hc)

theorem Linked.shape_ne_none_iff {cells : List (Cell α)} (hl : Linked sl cells) (y : Id) :
    shape sl.heap y ≠ none ↔ y ∈ (headCell sl :: cells).map Cell.id :=
  (not_congr shape_eq_none_iff).trans (hl.live y)

theorem perm_cells (sl : Skiplist α) (pre post : List (Cell α)) (c : Cell α) :
    ((headCell sl :: (pre ++ c :: post)).map Cell.id).Perm (c.id :: (headCell sl :: (pre ++ post)).map Cell.id) := by
  rw [← List.cons_append, ← List.cons_append, List.map_append, List.map_append, List.map_cons]
  exact List.perm_middle

theorem Linked.above_congr {cells : List (Cell α)} (hl : Linked sl cells) {h' : Heap α} {i : Nat} (hi : sl.level ≤ i)
    (hmax : i < skiplistMaxlevel) (hlink : link h' sl.header i = link sl.heap sl.header i) :
    ∃ span, link h' sl.header i = some ⟨none, span⟩ := by
  rw [hlink]
  exact hl.above i hi hmax

section

variable (mid : List (Cell α)) {mid' : List (Cell α)} {h' : Heap α} {x : Cell α}

/-- The nodes `mid` are replaced by others. On the way to them the links of the path are the ones that change: a node that
is not on it has a node of the level between itself and them. -/
theorem Linked.links_front (hl : Linked sl (pre ++ (mid ++ post))) (hpath : Path (headCell sl :: pre) sl.level last behind)
    (hlink : ∀ y ∈ headCell sl :: (pre ++ post), ∀ j, link h' y.id j =
      if j < sl.level ∧ y.id = (last j).id then some (linkOf j (behind j ++ (mid' ++ post))) else link sl.heap y.id j)
    {front r : List (Cell α)} (hx : headCell sl :: pre = front ++ x :: r) {i : Nat} (hi : i < x.height) :
    link h' x.id i = some (linkOf i (r ++ (mid' ++ post))) := by
  have hmem : x ∈ headCell sl :: pre := by simp [hx]
  have hlevel : i < sl.level := by
    rcases List.mem_cons.mp hmem with rfl | hmem
    · exact hi
    · exact Nat.lt_of_lt_of_le hi (hl.heights x (List.mem_append_left _ hmem)).2
  have hlast := hpath i hlevel
  rw [hlink x (by rw [← List.cons_append]; exact List.mem_append_left post hmem)]
  by_cases hshort : ∀ y ∈ r, y.height ≤ i
  · obtain ⟨rfl, rfl⟩ : x = last i ∧ r = behind i := LastAt.unique ⟨hi, hshort, front, hx⟩ hlast
    rw [if_pos ⟨hlevel, rfl⟩]
  · have hstop : x.id ≠ (last i).id := by
      obtain ⟨u, hu⟩ := hlast.split
      intro hids
      have hfull : ((headCell sl :: pre).map Cell.id).Nodup := hl.nodup.sublist (by simp)
      obtain ⟨-, -, rfl⟩ := split_unique hfull hx hu hids
      exact hshort hlast.behind
    push Not at hshort
    obtain ⟨y, hy, hyi⟩ := hshort
    rw [if_neg (fun h => hstop h.2), hl.links front x (r ++ (mid ++ post)) (by rw [← List.cons_append, hx]; simp) i hi,
      linkOf_append_congr hy hyi]

theorem Linked.links_behind (hl : Linked sl (pre ++ (mid ++ post))) (hpath : Path (headCell sl :: pre) sl.level last behind)
    (hlink : ∀ y ∈ headCell sl :: (pre ++ post), ∀ j, link h' y.id j =
      if j < sl.level ∧ y.id = (last j).id then some (linkOf j (behind j ++ (mid' ++ post))) else link sl.heap y.id j)
    {r rest : List (Cell α)} (hx : post = r ++ x :: rest) {i : Nat} (hi : i < x.height) :
    link h' x.id i = some (linkOf i rest) := by
  subst hx
  rw [hlink x (by simp), if_neg, hl.links (headCell sl :: (pre ++ (mid ++ r))) x rest (by simp) i hi]
  rintro ⟨hlevel, hids⟩
  have hnodup := hl.nodup
  rw [← List.cons_append] at hnodup
  exact name_ne_of_mem hnodup (hpath i hlevel).mem (by simp) hids.symm

theorem Linked.shapes_front (hl : Linked sl (pre ++ (mid ++ post)))
    (hrest : ∀ y ∈ pre ++ post, (∀ p ∈ post.head?, y.id ≠ p.id) → shape h' y.id = shape sl.heap y.id)
    {front r : List (Cell α)} (hx : pre = front ++ x :: r) :
    shape h' x.id = some (some x.entry.obj, x.entry.score, front.getLast?.map Cell.id, x.height) := by
  have hnodup : ((pre ++ post).map Cell.id).Nodup := hl.nodup.sublist (by simp)
  rw [hrest x (by simp [hx])]
  · exact hl.shapes front x (r ++ (mid ++ post)) (by simp [hx])
  · exact fun p hp => name_ne_of_mem hnodup (by simp [hx]) (List.mem_of_mem_head? hp)

theorem Linked.shapes_behind (hl : Linked sl (pre ++ (mid ++ post)))
    (hnext : ∀ p ∈ post.head?, shape h' p.id =
      some (some p.entry.obj, p.entry.score, (pre ++ mid').getLast?.map Cell.id, p.height))
    (hrest : ∀ y ∈ pre ++ post, (∀ p ∈ post.head?, y.id ≠ p.id) → shape h' y.id = shape sl.heap y.id)
    {r rest : List (Cell α)} (hx : post = r ++ x :: rest) :
    shape h' x.id = some (some x.entry.obj, x.entry.score, (pre ++ mid' ++ r).getLast?.map Cell.id, x.height) := by
  subst hx
  cases r with
  | nil => simpa using hnext x (by simp)
  | cons p r =>
    have hnodup : ((pre ++ (p :: r ++ x :: rest)).map Cell.id).Nodup := hl.nodup.sublist (by simp)
    rw [hrest x (by simp)]
    · have := hl.shapes (pre ++ (mid ++ p :: r)) x rest (by simp)
      simpa [List.getLast?_append, List.getLast?_cons] using this
    · intro q hq
      obtain rfl : p = q := by simpa using hq
      rw [← List.append_assoc] at hnodup
      exact (name_ne_of_mem hnodup (by simp) (by simp)).symm

theorem Linked.header_ne_next (hl : Linked sl (pre ++ (mid ++ post))) : ∀ p ∈ post.head?, sl.header ≠ p.id := by
  intro p hp
  have hnodup : ((headCell sl :: (pre ++ post)).map Cell.id).Nodup := hl.nodup.sublist (by simp)
  rw [← List.cons_append] at hnodup
  exact name_ne_of_mem (x := headCell sl) hnodup List.mem_cons_self (List.mem_of_mem_head? hp)

/-- The node behind them is allocated in both heaps. -/
theorem Linked.shape_ne_none_congr (hl : Linked sl (pre ++ (mid ++ post))) {backward : Option Id} {y : Id}
    (hnext : ∀ p ∈ post.head?, shape h' p.id = some (some p.entry.obj, p.entry.score, backward, p.height))
    (hrest : (∀ p ∈ post.head?, y ≠ p.id) → shape h' y = shape sl.heap y) : shape h' y ≠ none ↔ shape sl.heap y ≠ none := by
  by_cases hp : ∀ p ∈ post.head?, y ≠ p.id
  · rw [hrest hp]
  · push Not at hp
    obtain ⟨p, hp, rfl⟩ := hp
    have hmem : p ∈ post := List.mem_of_mem_head? hp
    rw [hnext p hp, hl.shape_ne_none_iff]
    exact iff_of_true (Option.some_ne_none _) (List.mem_map_of_mem (by simp [hmem]))

end

/-- **The list with a new node.** A heap that differs from the old one in the links of the path, the new node and the node
behind it holds the list with the new node in its place. -/
theorem Linked.insert (hl : Linked sl (pre ++ post)) (hpath : Path (headCell sl :: pre) sl.level last behind) {c : Cell α}
    (hid : c.id = sl.fresh) (hpos : 0 < c.height) (hle : c.height ≤ sl.level) {h' : Heap α}
    (hlink : ∀ y j, link h' y j = if y = c.id then if j < c.height then some (linkOf j post) else none
      else if j < sl.level ∧ y = (last j).id then some (linkOf j (behind j ++ c :: post)) else link sl.heap y j)
    (hnew : shape h' c.id = some (some c.entry.obj, c.entry.score, pre.getLast?.map Cell.id, c.height))
    (hnext : ∀ p ∈ post.head?, shape h' p.id = some (some p.entry.obj, p.entry.score, some c.id, p.height))
    (hrest : ∀ y, y ≠ c.id → (∀ p ∈ post.head?, y ≠ p.id) → shape h' y = shape sl.heap y) {tail : Option Id}
    (htail : tail = (c :: post).getLast?.map Cell.id) :
    Linked { sl with heap := h', fresh := c.id + 1, tail, length := sl.length + 1 } (pre ++ c :: post) := by
  have hfresh := hl.fresh_notMem
  have hperm := perm_cells sl pre post c
  have hne : ∀ y ∈ headCell sl :: (pre ++ post), y.id ≠ c.id := fun y hy h => hfresh (hid ▸ h ▸ List.mem_map_of_mem hy)
  have hheader : sl.header ≠ c.id := hne (headCell sl) List.mem_cons_self
  have hlink' : ∀ y ∈ headCell sl :: (pre ++ post), ∀ j, link h' y.id j =
      if j < sl.level ∧ y.id = (last j).id then some (linkOf j (behind j ++ ([c] ++ post))) else link sl.heap y.id j :=
    fun y hy j => (hlink y.id j).trans (if_neg (hne y hy))
  have hrest' : ∀ y ∈ pre ++ post, (∀ p ∈ post.head?, y.id ≠ p.id) → shape h' y.id = shape sl.heap y.id :=
    fun y hy => hrest y.id (hne y (List.mem_cons_of_mem _ hy))
  refine { hl with
    links := fun front x rest hx i hi => ?links
    shapes := fun front x rest hx => ?shapes
    header := (hrest sl.header hheader (hl.header_ne_next [])).trans hl.header
    above := fun i hi hmax => hl.above_congr hi hmax ?above
    nodup := ?nodup
    live := fun y => ?live
    fresh := fun d hd => ?fresh
    heights := fun d hd => ?heights
    tail := ?tail
    length := ?length }
  case links =>
    rw [← List.cons_append] at hx
    rcases append_eq_append_cons hx with ⟨r, hr, rfl⟩ | ⟨r, -, hr⟩
    · exact hl.links_front [] hpath hlink' hr hi
    · cases r with
      | nil =>
        obtain ⟨rfl, rfl⟩ := List.cons.inj hr
        exact (hlink _ i).trans ((if_pos rfl).trans (if_pos hi))
      | cons d r => exact hl.links_behind [] hpath hlink' (List.cons.inj hr).2 hi
  case shapes =>
    rcases append_eq_append_cons hx with ⟨r, hr, -⟩ | ⟨r, hfront, hr⟩
    · exact hl.shapes_front [] hrest' hr
    · cases r with
      | nil =>
        obtain ⟨rfl, rfl⟩ := List.cons.inj hr
        rw [hfront, List.append_nil]
        exact hnew
      | cons d r =>
        obtain ⟨rfl, hr'⟩ := List.cons.inj hr
        have hnext' : ∀ p ∈ post.head?, shape h' p.id =
            some (some p.entry.obj, p.entry.score, (pre ++ [c]).getLast?.map Cell.id, p.height) := by
          simpa using hnext
        have := hl.shapes_behind [] hnext' hrest' hr'
        rwa [List.append_assoc, List.singleton_append, ← hfront] at this
  case above =>
    rw [hlink, if_neg hheader, if_neg fun h => absurd h.1 (Nat.not_lt.mpr hi)]
  case nodup =>
    exact hperm.nodup_iff.mpr (List.nodup_cons.mpr ⟨hid ▸ hfresh, hl.nodup⟩)
  case live =>
    refine (not_congr shape_eq_none_iff).symm.trans (Iff.trans ?_ hperm.mem_iff.symm)
    rw [List.mem_cons, ← hl.shape_ne_none_iff]
    by_cases hy : y = c.id
    · simp [hy, hnew]
    · rw [or_iff_right hy]
      exact hl.shape_ne_none_congr [] hnext (hrest y hy)
  case fresh =>
    have hd' : d = c ∨ d ∈ headCell sl :: (pre ++ post) := by
      simpa [or_left_comm, headCell] using hd
    rcases hd' with rfl | hd'
    · exact Nat.lt_succ_self _
    · exact Nat.lt_succ_of_lt (hid ▸ hl.fresh d hd')
  case heights =>
    rcases List.mem_append.mp hd with hd | hd
    · exact hl.heights d (List.mem_append_left _ hd)
    · rcases List.mem_cons.mp hd with rfl | hd
      · exact ⟨hpos, hle⟩
      · exact hl.heights d (List.mem_append_right _ hd)
  case tail =>
    rw [htail, List.getLast?_append]
    cases h : (c :: post).getLast? with
    | none => simp at h
    | some d => rfl
  case length =>
    rw [hl.length]
    simp only [List.length_append, List.length_cons]
    omega

/-! ### The levels the list does not have yet -/

omit [Zero α] in
/-- Where a search stopped does not depend on how many levels of the header are in use. -/
theorem Stops.head {τ : Type} {count : Nat → τ} {x : Cell α} {l : List (Cell α)} {i : Nat} {at_ : Id × τ}
    (h : Stops (x :: l) count i at_) (x' : Cell α) (hid : x.id = x'.id) (hi : i < x'.height) : Stops (x' :: l) count i at_ := by
  obtain ⟨y, t, hlast, rfl⟩ := h
  obtain ⟨u, hu⟩ := hlast.split
  cases u with
  | nil =>
    obtain ⟨rfl, rfl⟩ := List.cons.inj hu
    exact ⟨x', _, ⟨hi, hlast.behind, [], rfl⟩, by rw [hid]; rfl⟩
  | cons c u =>
    obtain ⟨-, rfl⟩ := List.cons.inj hu
    exact ⟨y, t, ⟨hlast.seen, hlast.behind, x' :: u, rfl⟩, rfl⟩

omit [Zero α] in
theorem raise_loop {h : Heap α} {header a n : Nat} (span : UInt32)
    (hold : ∀ i, a ≤ i → i < a + n → ∃ span, link h header i = some ⟨none, span⟩) :
    ∃ h', (List.range' a n).foldlM (fun h i => do
      let l ← link h header i
      setLink h header i { l with span := span }) h = some h' ∧
      (∀ y j, link h' y j = if y = header ∧ a ≤ j ∧ j < a + n then some ⟨none, span⟩ else link h y j) ∧
      ∀ y, shape h' y = shape h y := by
  refine foldlM_range'_of_invariant (fun i h' => (∀ y j, link h' y j =
    if y = header ∧ a ≤ j ∧ j < i then some ⟨none, span⟩ else link h y j) ∧ ∀ y, shape h' y = shape h y) rfl
    ⟨fun y j => ?_, fun y => rfl⟩ ?_
  · rw [if_neg fun hj => by omega]
  · rintro i h' hai hi ⟨hlink, hshape⟩
    obtain ⟨span', hspan'⟩ := hold i hai hi
    have hu : link h' header i = some ⟨none, span'⟩ := by
      rw [hlink, if_neg fun hj => absurd hj.2.2 (Nat.lt_irrefl i), hspan']
    obtain ⟨h'', hset, hlink', hshape'⟩ := setLink_spec ⟨none, span⟩ hu
    refine ⟨h'', by simp [hu, hset], fun y j => ?_, fun y => (hshape' y).trans (hshape y)⟩
    rw [hlink', hlink]
    by_cases hj : j = i
    · subst hj
      by_cases hy : y = header
      · simp [hy, hai]
      · simp [hy]
    · have hiff : j < i + 1 ↔ j < i := by omega
      simp [hj, hiff]

theorem Linked.raise_spec (hl : Linked sl (pre ++ post)) {level : Nat} (hmax : level ≤ skiplistMaxlevel)
    {path : List (Id × UInt32)} (hlen : path.length = sl.level)
    (hstops : ∀ i at_, path[i]? = some at_ → Stops (headCell sl :: pre) UInt32.ofNat i at_) :
    ∃ sl' path', raise sl level path = some (sl', path') ∧ Linked sl' (pre ++ post) ∧ sl'.fresh = sl.fresh ∧
      sl'.header = sl.header ∧ sl'.level = max sl.level level ∧ path'.length = sl'.level ∧
      ∀ i at_, path'[i]? = some at_ → Stops (headCell sl' :: pre) UInt32.ofNat i at_ := by
  by_cases hlt : sl.level < level
  · obtain ⟨h', hloop, hlink, hshape⟩ := raise_loop (n := level - sl.level) (UInt32.ofNat sl.length)
      fun i hi hi' => hl.above i hi (by omega)
    have hsub : sl.level + (level - sl.level) = level := by omega
    rw [hsub] at hlink
    have hlinked : Linked { sl with heap := h', level } (pre ++ post) := by
      refine ⟨fun front x behind hx i hi => ?_, fun front x behind hx => (hshape x.id).trans (hl.shapes front x behind hx),
        (hshape _).trans hl.header, fun i hi hi' => ?_, hl.nodup, fun y => ?_, ?_, fun c hc => ?_, by show 0 < level; omega,
        hmax, hl.tail, hl.length⟩
      · cases front with
        | nil =>
          obtain ⟨rfl, rfl⟩ := List.cons.inj hx
          show link h' sl.header i = _
          rw [hlink]
          by_cases hnew : sl.level ≤ i
          · have hshort : ∀ c ∈ pre ++ post, c.height ≤ i := fun c hc => Nat.le_trans (hl.heights c hc).2 hnew
            rw [if_pos ⟨rfl, hnew, hi⟩, linkOf, nextAt_of_le hshort, ← hl.length]
            rfl
          · rw [if_neg fun h => hnew h.2.1]
            exact hl.links [] (headCell sl) _ rfl i (Nat.not_le.mp hnew)
        | cons d front =>
          obtain ⟨-, hx⟩ := List.cons.inj hx
          have hne : sl.header ≠ x.id := by
            have hnodup := hl.nodup
            rw [← List.singleton_append] at hnodup
            exact name_ne_of_mem (x := headCell sl) hnodup (by simp) (by simp [hx])
          show link h' x.id i = _
          rw [hlink, if_neg fun h => hne h.1.symm]
          exact hl.links (headCell sl :: front) x behind (congrArg _ hx) i hi
      · show ∃ span, link h' sl.header i = _
        rw [hlink, if_neg fun h => absurd h.2.2 (Nat.not_lt.mpr hi)]
        exact hl.above i (Nat.le_of_lt (Nat.lt_of_lt_of_le hlt hi)) hi'
      · refine (not_congr shape_eq_none_iff).symm.trans ?_
        rw [hshape]
        exact hl.shape_ne_none_iff y
      · exact List.forall_mem_cons.mpr ⟨hl.fresh (headCell sl) List.mem_cons_self, fun c hc => hl.fresh c (List.mem_cons_of_mem _ hc)⟩
      · exact ⟨(hl.heights c hc).1, Nat.le_trans (hl.heights c hc).2 (Nat.le_of_lt hlt)⟩
    refine ⟨{ sl with heap := h', level }, path ++ List.replicate (level - sl.level) (sl.header, 0), ?_, hlinked, rfl, rfl,
      (Nat.max_eq_right (Nat.le_of_lt hlt)).symm, ?_, ?_⟩
    · rw [raise, if_pos hlt, hloop]
      rfl
    · show _ = level
      rw [List.length_append, List.length_replicate]
      omega
    · intro i at_ hat
      rcases Nat.lt_or_ge i path.length with hi | hi
      · rw [List.getElem?_append_left hi] at hat
        exact (hstops i at_ hat).head _ rfl (by show i < level; omega)
      · -- a level that is new: the search starts at the header and stops there
        rw [List.getElem?_append_right hi, List.getElem?_replicate] at hat
        split at hat
        next hi' =>
          refine ⟨_, pre, ⟨?_, fun c hc => ?_, [], rfl⟩, ?_⟩
          · show i < level
            omega
          · have := (hl.heights c (List.mem_append_left _ hc)).2
            omega
          · rw [← Option.some.inj hat]
            simp [headCell]
        next => cases hat
  · exact ⟨sl, path, by rw [raise, if_neg hlt], hl, rfl, rfl, (Nat.max_eq_left (Nat.not_lt.mp hlt)).symm, hlen, hstops⟩

/-! ### `slInsert` -/

theorem Linked.link_path (hl : Linked sl (pre ++ post)) {i : Nat} {y : Cell α} {t : List (Cell α)}
    (hlast : LastAt Cell.height i (headCell sl :: pre) y t) : link sl.heap y.id i = some (linkOf i (t ++ post)) := by
  obtain ⟨u, hu⟩ := hlast.split
  refine hl.links u y (t ++ post) ?_ i hlast.seen
  rw [← List.cons_append, hu, List.append_assoc, List.cons_append]

omit [Zero α] in
theorem rank_sub {n k : Nat} (h : k ≤ n) : UInt32.ofNat n - UInt32.ofNat (n - k) = UInt32.ofNat k := by
  obtain ⟨m, rfl⟩ := Nat.exists_eq_add_of_le h
  rw [Nat.add_sub_cancel_left, UInt32.ofNat_add]
  grind

theorem Linked.loops (hl : Linked sl (pre ++ post)) (hpath : Path (headCell sl :: pre) sl.level last behind)
    {path : List (Id × UInt32)}
    (hat : ∀ i < sl.level, path[i]? = some ((last i).id, UInt32.ofNat (pre.length - (behind i).length))) {c : Cell α}
    (hid : c.id = sl.fresh) (hle : c.height ≤ sl.level) : ∃ h₁ h₂,
      (List.range c.height).foldlM (fun h i => do
        let (u, rank) ← path[i]?
        splice h c.id u i (UInt32.ofNat pre.length - rank))
        (Function.update sl.heap c.id (some (slCreateNode c.height c.entry.score (some c.entry.obj)))) = some h₁ ∧
      (List.range' c.height (sl.level - c.height)).foldlM (fun h i => do
        let (u, _) ← path[i]?
        widen h u i) h₁ = some h₂ ∧
      (∀ y j, link h₂ y j = if y = c.id then if j < c.height then some (linkOf j post) else none
        else if j < sl.level ∧ y = (last j).id then some (linkOf j (behind j ++ c :: post)) else link sl.heap y j) ∧
      ∀ y, shape h₂ y = if y = c.id then some (some c.entry.obj, c.entry.score, none, c.height) else shape sl.heap y := by
  have hne : ∀ i < sl.level, (last i).id ≠ c.id := by
    intro i hi h
    refine hl.fresh_notMem (hid ▸ h ▸ List.mem_map_of_mem ?_)
    rw [← List.cons_append]
    exact List.mem_append_left post (hpath i hi).mem
  have hbehind : ∀ i < sl.level, (behind i).length ≤ pre.length := fun i hi => Nat.lt_succ_iff.mp (hpath i hi).length_lt
  have hlink₀ : ∀ y i, link (Function.update sl.heap c.id
      (some (slCreateNode c.height c.entry.score (some c.entry.obj)))) y i =
        if y = c.id then if i < c.height then some ⟨none, 0⟩ else none else link sl.heap y i := by
    intro y i
    rw [link_update, slCreateNode, List.getElem?_replicate]
  have hold : ∀ i < sl.level, link (Function.update sl.heap c.id
      (some (slCreateNode c.height c.entry.score (some c.entry.obj)))) (last i).id i =
        some (linkOf i (behind i ++ post)) := by
    intro i hi
    rw [hlink₀, if_neg (hne i hi), hl.link_path (hpath i hi)]
  obtain ⟨h₁, hloop₁, hlink₁, hshape₁⟩ := splice_loop (c := c) hpath hle hne hold
    (fun i hi => ⟨⟨none, 0⟩, by rw [hlink₀, if_pos rfl, if_pos hi]⟩)
    (fun h i hi => by
      have hi' : i < sl.level := Nat.lt_of_lt_of_le hi hle
      show (do let (u, rank) ← path[i]?; splice h c.id u i (UInt32.ofNat pre.length - rank)) = _
      rw [hat i hi']
      exact congrArg (splice h c.id (last i).id i) (rank_sub (hbehind i hi')))
  have hold₁ : ∀ i < sl.level, c.height ≤ i → link h₁ (last i).id i = some (linkOf i (behind i ++ post)) := by
    intro i hi hci
    rw [hlink₁, if_neg fun h => absurd h.1 (Nat.not_lt.mpr hci), if_neg fun h => absurd h.1 (Nat.not_lt.mpr hci), hold i hi]
  obtain ⟨h₂, hloop₂, hlink₂, hshape₂⟩ := widen_loop hpath hle hold₁
    (fun h i hi => by
      show (do let (u, _) ← path[i]?; widen h u i) = _
      rw [hat i hi]
      rfl)
  refine ⟨h₁, h₂, hloop₁, hloop₂, fun y j => ?_, fun y => ?_⟩
  · have hnej := hne j
    rw [hlink₂, hlink₁, hlink₀]
    by_cases hy : y = c.id
    · subst hy
      by_cases hj : j < c.height
      · simp [hj, Nat.not_le.mpr hj]
      · have hstop : ¬ ((c.height ≤ j ∧ j < sl.level) ∧ c.id = (last j).id) := fun h => hnej h.1.2 h.2.symm
        simp [hj, hstop]
    · by_cases hj : j < c.height
      · simp [hy, hj, Nat.lt_of_lt_of_le hj hle, Nat.not_le.mpr hj]
      · simp [hy, hj, Nat.not_lt.mp hj]
  · rw [hshape₂, hshape₁, shape_update]
    simp [Node.shape, slCreateNode]

theorem slRandomLevel_pos (draws : List Nat) : 0 < slRandomLevel draws := by
  unfold slRandomLevel skiplistMaxlevel
  dsimp only
  split <;> omega

theorem slRandomLevel_le (draws : List Nat) : slRandomLevel draws ≤ skiplistMaxlevel := by
  unfold slRandomLevel
  dsimp only
  split <;> omega

theorem Linked.linkOf_zero (hl : Linked sl (pre ++ post)) : (linkOf 0 post).forward = post.head?.map Cell.id := by
  rw [linkOf, nextAt_of_lt fun c hc => (hl.heights c (List.mem_append_right pre hc)).1]

omit [Zero α] in
/-- The node in front of the new one: the one the search for it stopped at, unless that is the header. -/
theorem backward_eq {header : Cell α} (hnodup : ((header :: pre).map Cell.id).Nodup) {front : List (Cell α)} {y : Cell α}
    (hy : header :: pre = front ++ [y]) :
    (if y.id = header.id then none else some y.id) = pre.getLast?.map Cell.id := by
  cases front with
  | nil =>
    obtain ⟨rfl, rfl⟩ := List.cons.inj hy
    simp
  | cons d front =>
    obtain ⟨rfl, rfl⟩ := List.cons.inj hy
    have hne : y.id ≠ header.id := by
      rw [← List.singleton_append] at hnodup
      exact (name_ne_of_mem hnodup (x := header) (by simp) (by simp)).symm
    rw [if_neg hne]
    simp

/-- **Insertion.** The new node goes in front of the first one whose entry does not come before its own. -/
theorem Linked.slInsert_spec [LinearOrder α] (hl : Linked sl (pre ++ post)) (draws : List Nat) {e : Entry α}
    (hshort : ∀ c ∈ pre ++ post, Short c.entry.obj) (he : Short e.obj) (hpre : ∀ c ∈ pre, c.entry < e)
    (hpost : ∀ c ∈ post, e ≤ c.entry) : ∃ sl', slInsert sl draws e.score e.obj = some sl' ∧
      Linked sl' (pre ++ ⟨sl.fresh, e, slRandomLevel draws⟩ :: post) ∧ sl'.header = sl.header ∧
      sl'.level = max sl.level (slRandomLevel draws) := by
  obtain ⟨path₀, hdescend, hlen₀, hstops₀⟩ := hl.descend_spec
    (hl.guide_lt (· + ·) UInt32.ofNat hshort he hpre hpost fun k d => (UInt32.ofNat_add k d).symm)
  obtain ⟨sl₁, path, hraise, hl₁, hfresh₁, hheader₁, hlevel₁, hlen, hstops⟩ :=
    hl.raise_spec (slRandomLevel_le draws) hlen₀ hstops₀
  obtain ⟨last, behind, hpath, hat⟩ := exists_path (exists_stop hlen hstops)
  have hat₀ := hat 0 hl₁.level_pos
  obtain ⟨front, y, hy, hy₀⟩ := (hstops 0 _ hat₀).zero fun c hc => hl₁.height_pos c (by
    rw [← List.cons_append]
    exact List.mem_append_left post hc)
  have hfront : front.length = pre.length := by
    have := congrArg List.length hy
    simp only [List.length_cons, List.length_append, List.length_nil] at this
    omega
  rw [hy₀, hfront] at hat₀
  let c : Cell α := ⟨sl.fresh, e, slRandomLevel draws⟩
  have hid : c.id = sl₁.fresh := hfresh₁.symm
  have hle : c.height ≤ sl₁.level := hlevel₁ ▸ Nat.le_max_right _ _
  obtain ⟨h₁, h₂, hloop₁, hloop₂, hlink₂, hshape₂⟩ := hl₁.loops hpath (fun i hi => by simpa using hat i hi) hid hle
  have hback := backward_eq (hl₁.nodup.sublist (by simp)) hy
  obtain ⟨h₃, hset₃, hlink₃, hshape₃⟩ := setBackward_spec (pre.getLast?.map Cell.id) ((hshape₂ c.id).trans (if_pos rfl))
  have hlink := fun y j => (hlink₃ y j).trans (hlink₂ y j)
  have hforward : link h₃ c.id 0 = some (linkOf 0 post) := by
    rw [hlink, if_pos rfl, if_pos (slRandomLevel_pos draws)]
  have hrun : slInsert sl draws e.score e.obj = (linkOf 0 post).forward.elim
      (some { sl₁ with heap := h₃, fresh := c.id + 1, tail := some c.id, length := sl₁.length + 1 })
      fun p => (setBackward h₃ p (some c.id)).bind fun heap =>
        some { sl₁ with heap, fresh := c.id + 1, length := sl₁.length + 1 } := by
    rw [slInsert, show (0 : UInt32) = UInt32.ofNat 0 from rfl, hdescend]
    simp only [Option.bind_eq_bind, Option.bind_some, hraise, hat₀, ← hid] at hloop₁ hloop₂ ⊢
    rewrite [show slRandomLevel draws = c.height from rfl, show e = c.entry from rfl, hloop₁, Option.bind_some, hloop₂,
      Option.bind_some, show sl₁.header = (headCell sl₁).id from rfl, hback, hset₃, Option.bind_some, hforward,
      Option.bind_some]
    cases (linkOf 0 post).forward <;> rfl
  rw [hrun, hl₁.linkOf_zero]
  cases post with
  | nil =>
    refine ⟨_, rfl, hl₁.insert hpath hid (slRandomLevel_pos draws) hle hlink ?_ ?_ ?_ ?_, hheader₁, hlevel₁⟩
    · rw [hshape₃, if_pos rfl]
    · simp
    · intro y hy _
      rw [hshape₃, if_neg hy, hshape₂, if_neg hy]
    · rfl
  | cons p post =>
    have hpc : p.id ≠ c.id := fun h => hl₁.fresh_notMem (hid ▸ h ▸ List.mem_map_of_mem (by simp))
    have hp := hl₁.shapes pre p post rfl
    obtain ⟨h₄, hset₄, hlink₄, hshape₄⟩ := setBackward_spec (some c.id) (h := h₃) (x := p.id)
      ((hshape₃ p.id).trans ((if_neg hpc).trans ((hshape₂ p.id).trans ((if_neg hpc).trans hp))))
    refine ⟨{ sl₁ with heap := h₄, fresh := c.id + 1, length := sl₁.length + 1 }, by simp [hset₄], ?_, hheader₁, hlevel₁⟩
    refine hl₁.insert hpath hid (slRandomLevel_pos draws) hle (fun y j => (hlink₄ y j).trans (hlink y j)) ?_ ?_ ?_ ?_
    · rw [hshape₄, if_neg hpc.symm, hshape₃, if_pos rfl]
    · intro q hq
      obtain rfl : p = q := by simpa using hq
      rw [hshape₄, if_pos rfl]
    · intro y hy hq
      rw [hshape₄, if_neg (hq p rfl), hshape₃, if_neg hy, hshape₂, if_neg hy]
    · rw [hl₁.tail]
      simp [List.getLast?_cons, List.getLast?_append]

end

end SkynetServer.Sl
