import SkynetServer.Lib.Levels
import SkynetServer.Skiplist.Basic

/-!
# Where a search stops

`Linked` ties a skip list to the list of its nodes: each node is linked on each of its levels to the next node of that
level, over the right number of nodes, the nodes in between are not linked there, and nothing else is allocated. A search
whose condition holds for the first nodes and fails for the rest stops on each level at the last of the first ones that
has the level, having crossed as many nodes as are in front of it.
-/

namespace SkynetServer.Sl

open Lib

variable {α : Type}

/-! ### The heap, by what its nodes hold -/

/-- What a node holds besides its links, and how many levels it has. -/
def Node.shape (node : Node α) : Option Obj × α × Option Id × Nat :=
  (node.obj, node.score, node.backward, node.level.length)

def shape (h : Heap α) (x : Id) : Option (Option Obj × α × Option Id × Nat) := (h x).map Node.shape

theorem shape_eq_some {h : Heap α} {x : Id} {obj : Option Obj} {score : α} {backward : Option Id} {n : Nat}
    (hs : shape h x = some (obj, score, backward, n)) : ∃ level, h x = some ⟨obj, score, backward, level⟩ ∧ level.length = n := by
  obtain ⟨⟨obj', score', backward', level⟩, hnode, hshape⟩ := Option.map_eq_some_iff.mp hs
  simp only [Node.shape, Prod.mk.injEq] at hshape
  obtain ⟨rfl, rfl, rfl, rfl⟩ := hshape
  exact ⟨level, hnode, rfl⟩

theorem shape_eq_none_iff {h : Heap α} {x : Id} : shape h x = none ↔ h x = none := Option.map_eq_none_iff

theorem link_update {h : Heap α} {x : Id} {node : Node α} (y : Id) (i : Nat) :
    link (Function.update h x (some node)) y i = if y = x then node.level[i]? else link h y i := by
  by_cases hy : y = x
  · simp [link, hy]
  · simp [link, hy]

theorem shape_update {h : Heap α} {x : Id} {node : Node α} (y : Id) :
    shape (Function.update h x (some node)) y = if y = x then some node.shape else shape h y := by
  by_cases hy : y = x
  · simp [shape, hy]
  · simp [shape, hy]

/-- An assignment to a link that exists changes this link and nothing else. -/
theorem setLink_spec {h : Heap α} {x : Id} {i : Nat} {l₀ : Link} (l : Link) (hlink : link h x i = some l₀) :
    ∃ h', setLink h x i l = some h' ∧ (∀ y j, link h' y j = if y = x ∧ j = i then some l else link h y j) ∧
      ∀ y, shape h' y = shape h y := by
  obtain ⟨node, hnode, hlevel⟩ := Option.bind_eq_some_iff.mp hlink
  obtain ⟨hi, -⟩ := List.getElem?_eq_some_iff.mp hlevel
  refine ⟨Function.update h x (some { node with level := node.level.set i l }), by simp [setLink, hnode, hi],
    fun y j => ?_, fun y => ?_⟩
  · rw [link_update]
    by_cases hy : y = x
    · rw [hy, if_pos rfl]
      by_cases hj : j = i
      · simp [hj, hi]
      · simp [hj, Ne.symm hj, link, hnode]
    · simp [hy]
  · rw [shape_update]
    by_cases hy : y = x
    · simp [hy, shape, hnode, Node.shape]
    · simp [hy]

theorem setBackward_spec {h : Heap α} {x : Id} {obj : Option Obj} {score : α} {backward : Option Id} {n : Nat}
    (b : Option Id) (hs : shape h x = some (obj, score, backward, n)) :
    ∃ h', setBackward h x b = some h' ∧ (∀ y j, link h' y j = link h y j) ∧
      ∀ y, shape h' y = if y = x then some (obj, score, b, n) else shape h y := by
  obtain ⟨level, hnode, rfl⟩ := shape_eq_some hs
  refine ⟨Function.update h x (some ⟨obj, score, b, level⟩), by simp [setBackward, hnode], fun y j => ?_, fun y => ?_⟩
  · rw [link_update]
    by_cases hy : y = x
    · simp [hy, link, hnode]
    · simp [hy]
  · exact shape_update y

/-! ### The list of the nodes -/

/-- A node as it is seen from outside: where it is, what it holds and on how many levels it is linked. -/
structure Cell (α : Type) where
  id : Id
  entry : Entry α
  height : Nat

theorem getElem?_of_split {full : List (Cell α)} (front : List (Cell α)) (y : Cell α) (behind : List (Cell α)) {k : Nat}
    (h : full = front ++ y :: behind) (hk : k = front.length) : full[k]? = some y := by
  rw [h, hk]
  simp

/-- The link on level `i` of a node with these nodes behind it. -/
def linkOf (i : Nat) (behind : List (Cell α)) : Link :=
  ⟨(nextAt Cell.height i behind).1.map Cell.id, UInt32.ofNat (nextAt Cell.height i behind).2⟩

section

variable [Zero α]

/-- The header, on the levels that are in use. -/
def headCell (sl : Skiplist α) : Cell α := ⟨sl.header, toLex (0, []), sl.level⟩

/-- The nodes of the skip list are `cells`, in this order. -/
structure Linked (sl : Skiplist α) (cells : List (Cell α)) : Prop where
  links : ∀ front x behind, headCell sl :: cells = front ++ x :: behind → ∀ i < x.height,
    link sl.heap x.id i = some (linkOf i behind)
  shapes : ∀ front x behind, cells = front ++ x :: behind →
    shape sl.heap x.id = some (some x.entry.obj, x.entry.score, front.getLast?.map Cell.id, x.height)
  header : shape sl.heap sl.header = some (none, 0, none, skiplistMaxlevel)
  above : ∀ i, sl.level ≤ i → i < skiplistMaxlevel → ∃ span, link sl.heap sl.header i = some ⟨none, span⟩
  nodup : ((headCell sl :: cells).map Cell.id).Nodup
  live : ∀ y, sl.heap y ≠ none ↔ y ∈ (headCell sl :: cells).map Cell.id
  fresh : ∀ c ∈ headCell sl :: cells, c.id < sl.fresh
  heights : ∀ c ∈ cells, 0 < c.height ∧ c.height ≤ sl.level
  level_pos : 0 < sl.level
  level_le : sl.level ≤ skiplistMaxlevel
  tail : sl.tail = cells.getLast?.map Cell.id
  length : sl.length = cells.length

variable {sl : Skiplist α} {cells pre post : List (Cell α)}

theorem Linked.height_pos (hl : Linked sl cells) : ∀ c ∈ headCell sl :: cells, 0 < c.height :=
  List.forall_mem_cons.mpr ⟨hl.level_pos, fun c hc => (hl.heights c hc).1⟩

theorem Linked.node (hl : Linked sl (pre ++ post)) {x : Cell α} {front behind : List (Cell α)}
    (hx : pre ++ post = front ++ x :: behind) : ∃ level, sl.heap x.id =
      some ⟨some x.entry.obj, x.entry.score, front.getLast?.map Cell.id, level⟩ ∧ level.length = x.height :=
  shape_eq_some (hl.shapes front x behind hx)

/-! ### The searches -/

section

variable {τ : Type}

/-- The condition of a search holds up to the node of rank `n` and for no node behind it, and `count` is what is crossed on
the way to a rank. -/
structure Guide (go : τ → UInt32 → Id → Option Bool) (add : τ → UInt32 → τ) (count : Nat → τ) (full : List (Cell α))
    (n : Nat) : Prop where
  add : ∀ k d, k + d < full.length → add (count k) (UInt32.ofNat d) = count (k + d)
  go : ∀ k d y, 0 < d → full[k + d]? = some y → go (count k) (UInt32.ofNat d) y.id = some (decide (k + d ≤ n))

variable {go : τ → UInt32 → Id → Option Bool} {add : τ → UInt32 → τ} {count : Nat → τ}

theorem length_behind_le {front behind : List (Cell α)} {x : Cell α} (hx : headCell sl :: pre = front ++ x :: behind) :
    behind.length ≤ pre.length := by
  have := congrArg List.length hx
  simp only [List.length_cons, List.length_append] at this
  omega

theorem Linked.walk_spec (hl : Linked sl (pre ++ post)) (hg : Guide go add count (headCell sl :: (pre ++ post)) pre.length)
    (i : Nat) {fuel : Nat} {front behind : List (Cell α)} {x : Cell α} (hx : headCell sl :: pre = front ++ x :: behind)
    (hi : i < x.height) (hfuel : behind.length < fuel) :
    ∃ y t, LastAt Cell.height i (x :: behind) y t ∧
      walk sl.heap go add i fuel x.id (count front.length) = some (y.id, count (pre.length - t.length)) := by
  induction fuel generalizing front x behind with
  | zero => omega
  | succ fuel ih =>
    have hlen : pre.length = front.length + behind.length := by
      have := congrArg List.length hx
      simp only [List.length_cons, List.length_append] at this
      omega
    have hfull : headCell sl :: (pre ++ post) = front ++ x :: (behind ++ post) := by
      rw [← List.cons_append, hx, List.append_assoc, List.cons_append]
    have hlink := hl.links front x (behind ++ post) hfull i hi
    rw [walk, hlink]
    simp only [Option.bind_eq_bind, Option.bind_some, linkOf]
    cases hnext : (nextAt Cell.height i behind).1 with
    | none =>
      -- nothing in front of the bound is on this level, and what is behind it fails the condition
      have hshort := nextAt_fst_eq_none_iff.mp hnext
      refine ⟨x, behind, ⟨hi, hshort, [], rfl⟩, ?_⟩
      rw [nextAt_append_of_le hshort]
      have hcount : front.length = pre.length - behind.length := by omega
      cases hpost : (nextAt Cell.height i post).1 with
      | none => simp [hcount]
      | some y =>
        obtain ⟨r, s, rfl, -, -, hd⟩ := nextAt_eq_some hpost
        have hy : (headCell sl :: (pre ++ (r ++ y :: s)))[front.length + (behind.length + (r.length + 1))]? = some y :=
          getElem?_of_split (front ++ x :: (behind ++ r)) y s (by simp [hfull]) (by simp; omega)
        have hgo := hg.go front.length (behind.length + (r.length + 1)) y (by omega) hy
        rw [decide_eq_false (by omega)] at hgo
        simp only [Option.map_some, hd, hgo, Option.bind_some, Bool.false_eq_true, if_false]
        rw [hcount]
        rfl
    | some y =>
      obtain ⟨r, s, rfl, hy, hshort, hd⟩ := nextAt_eq_some hnext
      rw [nextAt_append_of_lt (y := y) (by simp) hy (t := []), List.append_nil, hnext, hd]
      have hfull' : headCell sl :: pre = (front ++ x :: r) ++ y :: s := by rw [hx]; simp
      have hat : (headCell sl :: (pre ++ post))[front.length + (r.length + 1)]? = some y :=
        getElem?_of_split (front ++ x :: r) y (s ++ post) (by simp [hfull]) (by simp)
      simp only [List.length_append, List.length_cons] at hlen hfuel
      have hgo := hg.go front.length (r.length + 1) y (by omega) hat
      rw [decide_eq_true (by omega)] at hgo
      have hadd := hg.add front.length (r.length + 1) (List.getElem?_eq_some_iff.mp hat).1
      obtain ⟨z, t, hlast, hwalk⟩ := ih hfull' hy (by omega)
      have hcount : (front ++ x :: r).length = front.length + (r.length + 1) := by simp
      refine ⟨z, t, hlast.append_left (x :: r), ?_⟩
      simp only [Option.map_some, hgo, Option.bind_some, if_true, hadd]
      rwa [hcount] at hwalk

/-- Where a search stops on level `i`, with what it has crossed. -/
def Stops (full : List (Cell α)) (count : Nat → τ) (i : Nat) (at_ : Id × τ) : Prop :=
  ∃ y t, LastAt Cell.height i full y t ∧ at_ = (y.id, count (full.length - 1 - t.length))

omit [Zero α] in
theorem exists_stop {full : List (Cell α)} {path : List (Id × τ)} {n : Nat} (hlen : path.length = n)
    (hstops : ∀ i at_, path[i]? = some at_ → Stops full count i at_) : ∀ i < n, ∃ y t, LastAt Cell.height i full y t ∧
      path[i]? = some (y.id, count (full.length - 1 - t.length)) := by
  intro i hi
  have hget := List.getElem?_eq_getElem (l := path) (i := i) (by omega)
  obtain ⟨y, t, hlast, hat⟩ := hstops i _ hget
  exact ⟨y, t, hlast, hget.trans (congrArg some hat)⟩

theorem Linked.descend_from (hl : Linked sl (pre ++ post))
    (hg : Guide go add count (headCell sl :: (pre ++ post)) pre.length) {n fuel : Nat} {front behind : List (Cell α)}
    {x : Cell α} (hx : headCell sl :: pre = front ++ x :: behind) (hn : n ≤ x.height) (hfuel : pre.length < fuel) :
    ∃ path, descend sl.heap go add fuel n x.id (count front.length) = some path ∧ path.length = n ∧
      ∀ i at_, path[i]? = some at_ → Stops (headCell sl :: pre) count i at_ := by
  induction n generalizing front x behind with
  | zero => exact ⟨[], rfl, rfl, fun i at_ h => by simp at h⟩
  | succ n ih =>
    have hbehind : behind.length < fuel := Nat.lt_of_le_of_lt (length_behind_le hx) hfuel
    obtain ⟨y, t, hlast, hwalk⟩ := hl.walk_spec hg n hx (by omega) hbehind
    obtain ⟨u, hu⟩ := hlast.split
    have hx' : headCell sl :: pre = (front ++ u) ++ y :: t := by rw [hx, hu, List.append_assoc]
    have hcount : pre.length - t.length = (front ++ u).length := by
      have := congrArg List.length hx'
      simp only [List.length_cons, List.length_append] at this ⊢
      omega
    obtain ⟨path, hpath, hlength, hstops⟩ := ih hx' (Nat.le_of_lt hlast.seen)
    refine ⟨path ++ [(y.id, count (pre.length - t.length))], ?_, by simp [hlength], ?_⟩
    · rw [descend, hwalk]
      simp only [Option.bind_eq_bind, Option.bind_some, hcount, hpath]
      rfl
    · intro i at_ hat
      rcases Nat.lt_or_ge i path.length with hi | hi
      · exact hstops i at_ (by rwa [List.getElem?_append_left hi] at hat)
      · rw [List.getElem?_append_right hi, List.getElem?_singleton] at hat
        split at hat
        next hi' =>
          obtain rfl : i = n := by omega
          exact ⟨y, t, hx ▸ hlast.append_left front, by simpa using hat.symm⟩
        next => cases hat

theorem Linked.descend_spec (hl : Linked sl (pre ++ post)) (hg : Guide go add count (headCell sl :: (pre ++ post)) pre.length) :
    ∃ path, descend sl.heap go add (sl.length + 1) sl.level sl.header (count 0) = some path ∧ path.length = sl.level ∧
      ∀ i at_, path[i]? = some at_ → Stops (headCell sl :: pre) count i at_ :=
  hl.descend_from hg (show _ = [] ++ headCell sl :: pre from rfl) (le_refl _) (by
    rw [hl.length, List.length_append]
    omega)

omit [Zero α] in
/-- On the lowest level the search stops at the last node that meets the condition. -/
theorem Stops.zero {full : List (Cell α)} {at_ : Id × τ} (hpos : ∀ c ∈ full, 0 < c.height) (h : Stops full count 0 at_) :
    ∃ front y, full = front ++ [y] ∧ at_ = (y.id, count front.length) := by
  obtain ⟨y, t, hlast, rfl⟩ := h
  obtain rfl := hlast.behind_eq_nil hpos
  obtain ⟨front, rfl⟩ := hlast.split
  exact ⟨front, y, rfl, by simp⟩

/-- A search that returns early, where it does so exactly at the last node that meets its condition. -/
theorem Linked.seek_from (hl : Linked sl (pre ++ post)) (hg : Guide go add count (headCell sl :: (pre ++ post)) pre.length)
    {found : Id → τ → Option Bool} (hfound : ∀ i y t, LastAt Cell.height i (headCell sl :: pre) y t →
      found y.id (count (pre.length - t.length)) = some (decide (t = []))) {n fuel : Nat} {front behind : List (Cell α)}
    {x : Cell α} (hx : headCell sl :: pre = front ++ x :: behind) (hn : n + 1 ≤ x.height) (hfuel : pre.length < fuel) :
    ∃ y, (headCell sl :: pre).getLast? = some y ∧
      seek sl.heap go add found fuel (n + 1) x.id (count front.length) = some (some (y.id, count pre.length)) := by
  induction n generalizing front x behind with
  | zero =>
    have hbehind : behind.length < fuel := Nat.lt_of_le_of_lt (length_behind_le hx) hfuel
    obtain ⟨y, t, hlast, hwalk⟩ := hl.walk_spec hg 0 hx (by omega) hbehind
    have hlast' : LastAt Cell.height 0 (headCell sl :: pre) y t := hx ▸ hlast.append_left front
    obtain rfl := hlast'.behind_eq_nil fun c hc => hl.height_pos c (by
      rw [← List.cons_append]
      exact List.mem_append_left post hc)
    obtain ⟨u, hu⟩ := hlast'.split
    refine ⟨y, by simp [hu], ?_⟩
    rw [seek, hwalk]
    have := hfound 0 y [] hlast'
    simp only [List.length_nil, Nat.sub_zero] at this ⊢
    simp [this]
  | succ n ih =>
    have hbehind : behind.length < fuel := Nat.lt_of_le_of_lt (length_behind_le hx) hfuel
    obtain ⟨y, t, hlast, hwalk⟩ := hl.walk_spec hg (n + 1) hx (by omega) hbehind
    have hlast' : LastAt Cell.height (n + 1) (headCell sl :: pre) y t := hx ▸ hlast.append_left front
    obtain ⟨u, hu⟩ := hlast'.split
    have hf := hfound (n + 1) y t hlast'
    rw [seek, hwalk]
    by_cases ht : t = []
    · subst ht
      refine ⟨y, by simp [hu], ?_⟩
      simp only [List.length_nil, Nat.sub_zero] at hf ⊢
      simp [hf]
    · have hcount : pre.length - t.length = u.length := by
        have := congrArg List.length hu
        simp only [List.length_cons, List.length_append] at this
        omega
      obtain ⟨z, hz, hseek⟩ := ih hu (Nat.le_of_lt hlast.seen)
      refine ⟨z, hz, ?_⟩
      rw [decide_eq_false ht, hcount] at hf
      simp [hcount, hf, hseek]

theorem Linked.seek_spec (hl : Linked sl (pre ++ post)) (hg : Guide go add count (headCell sl :: (pre ++ post)) pre.length)
    (found : Id → τ → Option Bool) (hfound : ∀ i y t, LastAt Cell.height i (headCell sl :: pre) y t →
      found y.id (count (pre.length - t.length)) = some (decide (t = []))) :
    ∃ y, (headCell sl :: pre).getLast? = some y ∧
      seek sl.heap go add found (sl.length + 1) sl.level sl.header (count 0) = some (some (y.id, count pre.length)) := by
  obtain ⟨n, hn⟩ : ∃ n, sl.level = n + 1 := ⟨sl.level - 1, by have := hl.level_pos; omega⟩
  have hfuel : pre.length < sl.length + 1 := by
    rw [hl.length, List.length_append]
    omega
  rw [hn]
  exact hl.seek_from hg hfound (show _ = [] ++ headCell sl :: pre from rfl) (Nat.le_of_eq hn.symm) hfuel

theorem Linked.seek_none_from (hl : Linked sl (pre ++ post)) (hg : Guide go add count (headCell sl :: (pre ++ post)) pre.length)
    {found : Id → τ → Option Bool} (hfound : ∀ y ∈ headCell sl :: pre, ∀ k, found y.id (count k) = some false) {n fuel : Nat}
    {front behind : List (Cell α)} {x : Cell α} (hx : headCell sl :: pre = front ++ x :: behind) (hn : n ≤ x.height)
    (hfuel : pre.length < fuel) : seek sl.heap go add found fuel n x.id (count front.length) = some none := by
  induction n generalizing front x behind with
  | zero => rfl
  | succ n ih =>
    have hbehind : behind.length < fuel := Nat.lt_of_le_of_lt (length_behind_le hx) hfuel
    obtain ⟨y, t, hlast, hwalk⟩ := hl.walk_spec hg n hx (by omega) hbehind
    have hlast' : LastAt Cell.height n (headCell sl :: pre) y t := hx ▸ hlast.append_left front
    obtain ⟨u, hu⟩ := hlast'.split
    have hcount : pre.length - t.length = u.length := by
      have := congrArg List.length hu
      simp only [List.length_cons, List.length_append] at this
      omega
    rw [seek, hwalk]
    simp [hfound y hlast'.mem, hcount, ih hu (Nat.le_of_lt hlast.seen)]

theorem Linked.seek_none (hl : Linked sl (pre ++ post)) (hg : Guide go add count (headCell sl :: (pre ++ post)) pre.length)
    (found : Id → τ → Option Bool) (hfound : ∀ y ∈ headCell sl :: pre, ∀ k, found y.id (count k) = some false) :
    seek sl.heap go add found (sl.length + 1) sl.level sl.header (count 0) = some none := by
  have hfuel : pre.length < sl.length + 1 := by
    rw [hl.length, List.length_append]
    omega
  exact hl.seek_none_from hg hfound (show _ = [] ++ headCell sl :: pre from rfl) (Nat.le_refl _) hfuel

/-! ### The conditions -/

theorem guide_of_node {test : Id → Option Bool} (hpre : ∀ c ∈ pre, test c.id = some true)
    (hpost : ∀ c ∈ post, test c.id = some false) (hadd : ∀ k d, k + d < (headCell sl :: (pre ++ post)).length →
      add (count k) (UInt32.ofNat d) = count (k + d)) :
    Guide (fun _ _ y => test y) add count (headCell sl :: (pre ++ post)) pre.length := by
  refine ⟨hadd, fun k d y hd hy => ?_⟩
  obtain ⟨n, hn⟩ : ∃ n, k + d = n + 1 := ⟨k + d - 1, by omega⟩
  rw [hn, List.getElem?_cons_succ] at hy
  rcases Nat.lt_or_ge n pre.length with h | h
  · rw [List.getElem?_append_left h] at hy
    rw [decide_eq_true (by omega)]
    exact hpre y (List.mem_of_getElem? hy)
  · rw [List.getElem?_append_right h] at hy
    rw [decide_eq_false (by omega)]
    exact hpost y (List.mem_of_getElem? hy)

end

omit [Zero α] in
/-- The spans add up to ranks, as long as these fit into 32 bits. -/
theorem add_toNat_ofNat {full : List (Cell α)} (hfull : full.length ≤ 0x100000000) (k d : Nat) (h : k + d < full.length) :
    k + (UInt32.ofNat d).toNat = k + d := by
  have hd : d < UInt32.size := Nat.lt_of_lt_of_le (Nat.lt_of_le_of_lt (Nat.le_add_left d k) h) hfull
  rw [UInt32.toNat_ofNat_of_lt' hd]

theorem guide_of_rank (test : Nat → Bool) (htest : ∀ k, 0 < k → k ≤ (pre ++ post).length → test k = decide (k ≤ pre.length))
    (hlen : (pre ++ post).length < 0x100000000) :
    Guide (fun crossed span _ => some (test (crossed + span.toNat))) (fun crossed span => crossed + span.toNat) id
      (headCell sl :: (pre ++ post)) pre.length := by
  have hfull : (headCell sl :: (pre ++ post)).length ≤ 0x100000000 := by
    rw [List.length_cons]
    omega
  refine ⟨fun k d h => add_toNat_ofNat hfull k d h, fun k d y hd hy => ?_⟩
  obtain ⟨h, -⟩ := List.getElem?_eq_some_iff.mp hy
  have hsum := add_toNat_ofNat hfull k d h
  rw [List.length_cons] at h
  simp only [id, hsum, htest (k + d) (by omega) (by omega)]

/-- The comparison of a node with an entry, where the members are short enough to be compared. -/
theorem Linked.ahead_spec [LinearOrder α] (hl : Linked sl cells) {c : Cell α} (hc : c ∈ cells) (cmp : Int → Bool) (score : α)
    (obj : Obj) : ahead cmp sl.heap score obj c.id =
      some (decide (c.entry.score < score ∨ c.entry.score = score ∧ cmp (compareslObj c.entry.obj obj))) := by
  obtain ⟨front, behind, hsplit⟩ := List.append_of_mem hc
  obtain ⟨level, hnode, -⟩ := shape_eq_some (hl.shapes front c behind hsplit)
  rw [ahead, hnode]
  simp only [Option.bind_eq_bind, Option.bind_some]
  by_cases hlt : c.entry.score < score
  · simp [hlt]
  · by_cases heq : c.entry.score = score
    · simp [heq]
    · simp [hlt, heq]

theorem Linked.ahead_lt [LinearOrder α] (hl : Linked sl cells) {c : Cell α} (hc : c ∈ cells) {e : Entry α}
    (hshort : Short c.entry.obj) (he : Short e.obj) :
    ahead (· < 0) sl.heap e.score e.obj c.id = some (decide (c.entry < e)) := by
  rw [hl.ahead_spec hc]
  simp only [decide_eq_true_eq, compareslObj_neg_iff hshort he]
  exact congrArg some (decide_eq_decide.mpr Prod.Lex.lt_iff.symm)

theorem Linked.ahead_le [LinearOrder α] (hl : Linked sl cells) {c : Cell α} (hc : c ∈ cells) {e : Entry α}
    (hshort : Short c.entry.obj) (he : Short e.obj) :
    ahead (· ≤ 0) sl.heap e.score e.obj c.id = some (decide (c.entry ≤ e)) := by
  rw [hl.ahead_spec hc]
  simp only [decide_eq_true_eq, compareslObj_nonpos_iff hshort he]
  exact congrArg some (decide_eq_decide.mpr Prod.Lex.le_iff.symm)

theorem Linked.guide_lt [LinearOrder α] {τ : Type} (add : τ → UInt32 → τ) (count : Nat → τ) (hl : Linked sl (pre ++ post))
    {e : Entry α} (hshort : ∀ c ∈ pre ++ post, Short c.entry.obj) (he : Short e.obj) (hpre : ∀ c ∈ pre, c.entry < e)
    (hpost : ∀ c ∈ post, e ≤ c.entry) (hadd : ∀ k d, add (count k) (UInt32.ofNat d) = count (k + d)) :
    Guide (fun _ _ y => ahead (· < 0) sl.heap e.score e.obj y) add count (headCell sl :: (pre ++ post)) pre.length := by
  refine guide_of_node (fun c hc => ?_) (fun c hc => ?_) fun k d _ => hadd k d
  · have hmem : c ∈ pre ++ post := List.mem_append_left post hc
    rw [hl.ahead_lt hmem (hshort c hmem) he, decide_eq_true (hpre c hc)]
  · have hmem : c ∈ pre ++ post := List.mem_append_right pre hc
    rw [hl.ahead_lt hmem (hshort c hmem) he, decide_eq_false (not_lt.mpr (hpost c hc))]

end

end SkynetServer.Sl
