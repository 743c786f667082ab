import Mathlib.Algebra.Order.Ring.Int
import Mathlib.Data.List.Sort
import Mathlib.Data.List.TakeWhile
import SkynetServer.Lib.Simulation
import SkynetServer.Skiplist.Query

/-!
# The skip list as a sorted list

The functions `lua-skiplist.c` gives to Lua, and what they come to: the skip list is the sorted list of its entries, on which
an insertion is an ordered insertion, a deletion takes out the first occurrence, and the ranges are segments. Over every run
of calls the C code does not touch memory it must not touch, comes back from each call and answers what the sorted list
answers.
-/

namespace SkynetServer.Sl

open Lib

variable {α : Type}

/-! ### The functions of `lua-skiplist.c` -/

/-- `reverse ? node->backward : node->level[0].forward`. -/
def Node.next (reverse : Bool) (node : Node α) : Option (Option Id) :=
  if reverse then some node.backward else node.level[0]?.map Link.forward

/-- The `while` of `_get_rank_range`. -/
def collect (h : Heap α) (reverse : Bool) : Nat → Option Id → Option (List Obj)
  | 0, _ => some []
  | _ + 1, none => some []
  | n + 1, some x => do
    let node ← h x
    let obj ← node.obj
    let next ← node.next reverse
    let rest ← collect h reverse n next
    return obj :: rest

/-- The `while` of `_get_score_range`, with its `break`. -/
def collectUntil (h : Heap α) (reverse : Bool) (past : α → Bool) : Nat → Option Id → Option (List Obj)
  | _, none => some []
  | 0, some _ => none
  | fuel + 1, some x => do
    let node ← h x
    if past node.score then
      return []
    else
      let obj ← node.obj
      let next ← node.next reverse
      let rest ← collectUntil h reverse past fuel next
      return obj :: rest

/-- `_delete_by_rank`: the arguments are cut down to an `unsigned int` and put in order. -/
def deleteByRank (sl : Skiplist α) (start last : Int) : Option (List Obj × Skiplist α) :=
  let start := UInt32.ofInt start
  let last := UInt32.ofInt last
  if last < start then slDeleteByRank sl last start else slDeleteByRank sl start last

/-- `_get_rank`; there is no rank 0. -/
def getRank [LinearOrder α] (sl : Skiplist α) (score : α) (member : Obj) : Option (Option Nat) :=
  (slGetRank sl score member).map fun rank => if rank = 0 then none else some rank

/-- `rangelen` of `_get_rank_range`, an `int`. -/
def rangelen (r1 r2 : Nat) : Int :=
  if r1 ≤ r2 then Int.bmod ((r2 - r1 + 1 : Nat) : Int) 0x100000000
  else Int.bmod ((r1 - r2 + 1 : Nat) : Int) 0x100000000

/-- `_get_rank_range`. -/
def getRankRange (sl : Skiplist α) (r1 r2 : Int) : Option (List Obj) := do
  let r1 := (UInt64.ofInt r1).toNat
  let r2 := (UInt64.ofInt r2).toNat
  let node ← slGetNodeByRank sl r1
  collect sl.heap (r2 < r1) (rangelen r1 r2).toNat node

/-- `_get_score_range`. -/
def getScoreRange [LinearOrder α] (sl : Skiplist α) (s1 s2 : α) : Option (List Obj) :=
  if s1 ≤ s2 then do
    let node ← slFirstInRange sl s1 s2
    collectUntil sl.heap false (s2 < ·) (sl.length + 1) node
  else do
    let node ← slLastInRange sl s2 s1
    collectUntil sl.heap true (· < s2) (sl.length + 1) node

/-! ### Sorted lists -/

section

variable {β : Type} {r : β → β → Prop} {p : β → Bool} {l : List β}

/-- In a sorted list the members that meet a condition which is inherited to the left are the first ones. -/
theorem forall_dropWhile (hsorted : l.Pairwise r) (hp : ∀ a b, r a b → p b = true → p a = true) :
    ∀ b ∈ l.dropWhile p, p b = false := by
  induction l with
  | nil => simp
  | cons a l ih =>
    obtain ⟨ha, hl⟩ := List.pairwise_cons.mp hsorted
    by_cases hpa : p a = true
    · rw [List.dropWhile_cons_of_pos hpa]
      exact ih hl
    · rw [List.dropWhile_cons_of_neg hpa]
      refine List.forall_mem_cons.mpr ⟨Bool.eq_false_iff.mpr hpa, fun b hb => ?_⟩
      rw [Bool.eq_false_iff]
      exact fun hpb => hpa (hp a b (ha b hb) hpb)

theorem forall_takeWhile : ∀ b ∈ l.takeWhile p, p b = true := fun _ hb => List.mem_takeWhile_imp hb

theorem filter_eq_takeWhile (hsorted : l.Pairwise r) (hp : ∀ a b, r a b → p b = true → p a = true) :
    l.filter p = l.takeWhile p := by
  conv_lhs => rw [← List.takeWhile_append_dropWhile (p := p) (l := l)]
  rw [List.filter_append, List.filter_eq_self.mpr forall_takeWhile, List.filter_eq_nil_iff.mpr, List.append_nil]
  exact fun b hb => Bool.eq_false_iff.mp (forall_dropWhile hsorted hp b hb)

end

/-! ### What each function does to the sorted list -/

section

variable [Zero α] [LinearOrder α] {sl : Skiplist α} {l : List (Entry α)}

/-- The skip list holds the entries `l`, sorted, and nothing else is allocated. -/
structure Holds (sl : Skiplist α) (l : List (Entry α)) : Prop where
  nodes : ∃ cells, Linked sl cells ∧ Tight sl cells ∧ cells.map Cell.entry = l
  sorted : l.Pairwise (· ≤ ·)
  short : ∀ e ∈ l, Short e.obj

/-- The nodes in front of a bound and those behind it, for a condition on the entries that is inherited to the left. -/
theorem Holds.split (h : Holds sl l) (p : Entry α → Bool) (hp : ∀ a b, a ≤ b → p b = true → p a = true) :
    ∃ pre post, Linked sl (pre ++ post) ∧ Tight sl (pre ++ post) ∧ pre.map Cell.entry = l.takeWhile p ∧
      post.map Cell.entry = l.dropWhile p ∧ (∀ d ∈ pre, p d.entry = true) ∧ (∀ d ∈ post, p d.entry = false) ∧
      ∀ d ∈ pre ++ post, Short d.entry.obj := by
  obtain ⟨cells, hl, htight, rfl⟩ := h.nodes
  have hsplit : cells.takeWhile (p ∘ Cell.entry) ++ cells.dropWhile (p ∘ Cell.entry) = cells :=
    List.takeWhile_append_dropWhile
  refine ⟨cells.takeWhile (p ∘ Cell.entry), cells.dropWhile (p ∘ Cell.entry), hsplit.symm ▸ hl, hsplit.symm ▸ htight,
    (List.takeWhile_map ..).symm, (List.dropWhile_map ..).symm, forall_takeWhile, ?_, ?_⟩
  · exact forall_dropWhile (List.pairwise_map.mp h.sorted) fun a b => hp a.entry b.entry
  · rw [hsplit]
    exact fun d hd => h.short d.entry (List.mem_map_of_mem hd)

theorem Holds.split_lt (h : Holds sl l) (e : Entry α) :
    ∃ pre post, Linked sl (pre ++ post) ∧ Tight sl (pre ++ post) ∧ l = pre.map Cell.entry ++ post.map Cell.entry ∧
      (∀ d ∈ pre, d.entry < e) ∧ (∀ d ∈ post, e ≤ d.entry) ∧ ∀ d ∈ pre ++ post, Short d.entry.obj := by
  obtain ⟨pre, post, hl, htight, hpre, hpost, hlt, hge, hshort⟩ := h.split (fun a => decide (a < e))
    fun a b hab hb => decide_eq_true (lt_of_le_of_lt hab (of_decide_eq_true hb))
  refine ⟨pre, post, hl, htight, ?_, fun d hd => of_decide_eq_true (hlt d hd),
    fun d hd => not_lt.mp (of_decide_eq_false (hge d hd)), hshort⟩
  rw [hpre, hpost, List.takeWhile_append_dropWhile]

omit [Zero α] [LinearOrder α] in
theorem notMem_map_entry {cells : List (Cell α)} {e : Entry α} (h : ∀ d ∈ cells, d.entry ≠ e) : e ∉ cells.map Cell.entry := by
  intro hmem
  obtain ⟨d, hd, hde⟩ := List.mem_map.mp hmem
  exact h d hd hde

omit [Zero α] in
/-- Where the first node that is not in front of an entry has another one, all of them are behind it. -/
theorem forall_lt_of_head_ne {post : List (Cell α)} {e : Entry α} (hsorted : (post.map Cell.entry).Pairwise (· ≤ ·))
    (hge : ∀ d ∈ post, e ≤ d.entry) (hhead : ¬ ∃ d rest, post = d :: rest ∧ d.entry = e) : ∀ d ∈ post, e < d.entry := by
  cases post with
  | nil => simp
  | cons c rest =>
    have hc : e < c.entry := lt_of_le_of_ne (hge c (by simp)) fun heq => hhead ⟨c, rest, rfl, heq.symm⟩
    refine List.forall_mem_cons.mpr ⟨hc, fun d hd => lt_of_lt_of_le hc ?_⟩
    exact (List.pairwise_cons.mp hsorted).1 d.entry (List.mem_map_of_mem hd)

omit [LinearOrder α] in
theorem linked_slCreate : Linked (slCreate : Skiplist α) [] where
  links := by
    intro front x behind hx i hi
    obtain ⟨rfl, rfl, rfl⟩ : front = [] ∧ x = headCell (slCreate : Skiplist α) ∧ behind = [] := by
      cases front with
      | nil => exact ⟨rfl, (List.cons.inj hx).1.symm, (List.cons.inj hx).2.symm⟩
      | cons d front => simp at hx
    obtain rfl : i = 0 := by simpa [headCell, slCreate] using hi
    rfl
  shapes := by simp
  header := by simp [slCreate, shape, Node.shape, slCreateNode]
  above := fun i _ hmax => ⟨0, by simp [slCreate, link, slCreateNode, hmax]⟩
  nodup := by simp
  live := by
    intro y
    by_cases hy : y = 0
    · simp [slCreate, headCell, hy]
    · simp [slCreate, headCell, hy]
  fresh := by simp [slCreate, headCell]
  heights := by simp
  level_pos := Nat.one_pos
  level_le := by simp [slCreate, skiplistMaxlevel]
  tail := rfl
  length := rfl

theorem holds_slCreate : Holds (slCreate : Skiplist α) [] where
  nodes := ⟨[], linked_slCreate, .inl rfl, rfl⟩
  sorted := List.Pairwise.nil
  short := by simp

/-- Insertion is ordered insertion, in front of equal entries. -/
theorem Holds.slInsert_spec (h : Holds sl l) (draws : List Nat) {e : Entry α} (he : Short e.obj) :
    ∃ sl', slInsert sl draws e.score e.obj = some sl' ∧ Holds sl' (l.orderedInsert (· ≤ ·) e) := by
  obtain ⟨pre, post, hl, htight, hpre, hpost, hlt, hge, hshort⟩ := h.split (fun a => decide (a < e))
    fun a b hab hb => decide_eq_true (lt_of_le_of_lt hab (of_decide_eq_true hb))
  obtain ⟨sl', hrun, hl', -, hlevel⟩ := hl.slInsert_spec draws hshort he (fun d hd => of_decide_eq_true (hlt d hd))
    fun d hd => not_lt.mp (of_decide_eq_false (hge d hd))
  have hcontents : l.orderedInsert (· ≤ ·) e = pre.map Cell.entry ++ e :: post.map Cell.entry := by
    rw [List.orderedInsert_eq_take_drop, hpre, hpost]
    simp only [not_le]
  refine ⟨sl', hrun, ⟨_, hl', ?_, by simp [hcontents]⟩, h.sorted.orderedInsert e l, fun d hd => ?_⟩
  · rcases Nat.le_total (slRandomLevel draws) sl.level with hle | hle
    · rw [Nat.max_eq_left hle] at hlevel
      rw [Tight, hlevel]
      exact htight.imp_right fun ⟨d, hd, hdl⟩ => ⟨d, by
        rcases List.mem_append.mp hd with hd | hd
        · exact List.mem_append_left _ hd
        · exact List.mem_append_right _ (List.mem_cons_of_mem _ hd), hdl⟩
    · exact .inr ⟨_, List.mem_append_right _ List.mem_cons_self, (hlevel.trans (Nat.max_eq_right hle)).symm⟩
  · rcases (List.mem_orderedInsert (· ≤ ·)).mp hd with rfl | hd
    · exact he
    · exact h.short d hd

/-- Deletion takes out the first occurrence and says whether there was one. -/
theorem Holds.slDelete_spec (h : Holds sl l) {e : Entry α} (he : Short e.obj) :
    ∃ sl', slDelete sl e.score e.obj = some (decide (e ∈ l), sl') ∧ Holds sl' (l.erase e) := by
  obtain ⟨pre, post, hl, htight, hcontents, hlt, hge, hshort⟩ := h.split_lt e
  have hnotpre := notMem_map_entry fun d hd => (hlt d hd).ne
  obtain ⟨hfound, hmissing⟩ := hl.slDelete_spec hshort he hlt hge
  by_cases hhead : ∃ d rest, post = d :: rest ∧ d.entry = e
  · obtain ⟨d, rest, rfl, rfl⟩ := hhead
    obtain ⟨sl', hrun, hl', htight'⟩ := hfound d rest rfl rfl
    have herase : l.erase d.entry = pre.map Cell.entry ++ rest.map Cell.entry := by
      rw [hcontents, List.erase_append_right _ hnotpre, List.map_cons, List.erase_cons_head]
    refine ⟨sl', ?_, ⟨_, hl', htight', by rw [herase, List.map_append]⟩, h.sorted.sublist List.erase_sublist,
      fun d hd => h.short d (List.mem_of_mem_erase hd)⟩
    rw [hrun, decide_eq_true (by rw [hcontents]; simp)]
  · have hbehind := forall_lt_of_head_ne (List.pairwise_append.mp (hcontents ▸ h.sorted)).2.1 hge hhead
    have hnot : e ∉ l := by
      rw [hcontents]
      exact List.not_mem_append hnotpre (notMem_map_entry fun d hd => (hbehind d hd).ne')
    refine ⟨sl, ?_, by rwa [List.erase_of_not_mem hnot]⟩
    rw [hmissing, decide_eq_false hnot]
    intro d hd hde
    cases post with
    | nil => simp at hd
    | cons d' rest => exact hhead ⟨d', rest, rfl, by rwa [Option.mem_some_iff.mp hd]⟩

/-- Deletion by rank takes out a segment. -/
theorem Holds.slDeleteByRank_spec (h : Holds sl l) (hlen : l.length < 0x100000000) (start last : UInt32) :
    ∃ sl', slDeleteByRank sl start last =
        some (((l.take last.toNat).drop (start.toNat - 1)).map Entry.obj, sl') ∧
      Holds sl' (l.take (start.toNat - 1) ++ l.drop (max (start.toNat - 1) last.toNat)) := by
  obtain ⟨cells, hl, htight, rfl⟩ := h.nodes
  rw [List.length_map] at hlen
  obtain ⟨sl', hrun, hl', htight'⟩ := hl.slDeleteByRank_spec htight hlen start last
  have hsub : ((cells.map Cell.entry).take (start.toNat - 1) ++
      (cells.map Cell.entry).drop (max (start.toNat - 1) last.toNat)).Sublist (cells.map Cell.entry) := by
    conv_rhs => rw [← List.take_append_drop (start.toNat - 1) (cells.map Cell.entry)]
    exact (List.Sublist.refl _).append (List.drop_sublist_drop_left _ (Nat.le_max_left ..))
  refine ⟨sl', ?_, ⟨_, hl', htight', ?_⟩, h.sorted.sublist hsub, fun e he => h.short e (hsub.subset he)⟩
  · rw [hrun, ← List.map_take, ← List.map_drop, List.map_map]
    rfl
  · rw [List.map_append, List.map_take, List.map_drop]

end

/-! ### Reading the list in either direction -/

section

variable [Zero α] {sl : Skiplist α} {pre post w : List (Cell α)}

/-- Each of the nodes leads to the next one of `w`, in the direction that is read. -/
def Visits (h : Heap α) (reverse : Bool) (w : List (Cell α)) : Prop :=
  ∀ u x v, w = u ++ x :: v → ∃ node, h x.id = some node ∧ node.obj = some x.entry.obj ∧ node.score = x.entry.score ∧
    node.next reverse = some (v.head?.map Cell.id)

omit [Zero α] in
theorem Visits.tail {h : Heap α} {reverse : Bool} {c : Cell α} (hw : Visits h reverse (c :: w)) : Visits h reverse w :=
  fun u x v hx => hw (c :: u) x v (congrArg _ hx)

theorem Linked.visits_forward (hl : Linked sl (pre ++ post)) : Visits sl.heap false post := by
  rintro u x v rfl
  have hsplit : pre ++ (u ++ x :: v) = (pre ++ u) ++ x :: v := by simp
  obtain ⟨level, hnode, -⟩ := shape_eq_some (hl.shapes (pre ++ u) x v hsplit)
  have hlink := hl.links (headCell sl :: (pre ++ u)) x v (by simp) 0 (hl.heights x (by simp)).1
  have hzero : (linkOf 0 v).forward = v.head?.map Cell.id :=
    (show Linked sl ((pre ++ u ++ [x]) ++ v) by simpa using hl).linkOf_zero
  refine ⟨_, hnode, rfl, rfl, ?_⟩
  rw [link, hnode] at hlink
  have hlevel : level[0]? = some (linkOf 0 v) := hlink
  simp [Node.next, hlevel, hzero]

theorem Linked.visits_backward (hl : Linked sl (pre ++ post)) : Visits sl.heap true pre.reverse := by
  intro u x v hx
  have hpre : pre = v.reverse ++ x :: u.reverse := by
    rw [← List.reverse_reverse pre, hx]
    simp
  obtain ⟨level, hnode, -⟩ := shape_eq_some (hl.shapes v.reverse x (u.reverse ++ post) (by simp [hpre]))
  exact ⟨_, hnode, rfl, rfl, by simp [Node.next]⟩

omit [Zero α] in
theorem Visits.collect_eq {h : Heap α} {reverse : Bool} (hw : Visits h reverse w) (n : Nat) :
    collect h reverse n (w.head?.map Cell.id) = some ((w.take n).map fun d => d.entry.obj) := by
  induction n generalizing w with
  | zero => simp [collect]
  | succ n ih =>
    cases w with
    | nil => simp [collect]
    | cons c w =>
      obtain ⟨node, hnode, hobj, -, hnext⟩ := hw [] c w rfl
      rw [List.head?_cons, Option.map_some, collect]
      simp only [Option.bind_eq_bind, hnode, hobj, hnext, Option.bind_some, ih hw.tail]
      rfl

omit [Zero α] in
theorem Visits.collectUntil_eq {h : Heap α} {reverse : Bool} (hw : Visits h reverse w) (past : α → Bool) {fuel : Nat}
    (hfuel : w.length < fuel) : collectUntil h reverse past fuel (w.head?.map Cell.id) =
      some ((w.takeWhile fun d => !past d.entry.score).map fun d => d.entry.obj) := by
  induction w generalizing fuel with
  | nil => simp [collectUntil]
  | cons c w ih =>
    obtain ⟨fuel, rfl⟩ : ∃ n, fuel = n + 1 := ⟨fuel - 1, by omega⟩
    obtain ⟨node, hnode, hobj, hscore, hnext⟩ := hw [] c w rfl
    rw [List.head?_cons, Option.map_some, collectUntil]
    simp only [Option.bind_eq_bind, hnode, hobj, hscore, hnext, Option.bind_some, ih hw.tail (Nat.lt_of_succ_lt_succ hfuel)]
    by_cases hpast : past c.entry.score = true
    · simp [hpast]
    · simp [hpast]

end

/-! ### Ranks and ranges -/

section

variable [LinearOrder α]

/-- The place of the first occurrence, from 1 on. -/
def rankOf (l : List (Entry α)) (e : Entry α) : Option Nat := if e ∈ l then some (l.idxOf e + 1) else none

/-- The member is in the list at most once with the score, and with no lower one. -/
def RankOk (l : List (Entry α)) (e : Entry α) : Prop := (∀ d ∈ l, d.obj = e.obj → e.score ≤ d.score) ∧ l.count e ≤ 1

instance (l : List (Entry α)) (e : Entry α) : Decidable (RankOk l e) := inferInstanceAs (Decidable (_ ∧ _))

theorem rankOf_eq_of_split {l p q : List (Entry α)} {e : Entry α} (h : l = p ++ e :: q) (hp : e ∉ p) :
    rankOf l e = some (p.length + 1) := by
  rw [h, rankOf, if_pos (by simp), List.idxOf_append_of_notMem hp, List.idxOf_cons_self, Nat.add_zero]

end

/-- The members of the ranks from `r1` to `r2`, downwards where `r2` is the smaller; there has to be a member of rank `r1`. -/
def rankRange (l : List (Entry α)) (r1 r2 : Nat) : List Obj :=
  if r1 = 0 ∨ l.length < r1 then []
  else if r1 ≤ r2 then ((l.take r2).drop (r1 - 1)).map Entry.obj
  else (((l.take r1).drop (r2 - 1)).reverse).map Entry.obj

/-- There is no member to begin with, or the number of ranks is an `int`. -/
def RanksOk (l : List (Entry α)) (r1 r2 : Nat) : Prop :=
  r1 = 0 ∨ l.length < r1 ∨ r1 < r2 + 0x7fffffff ∧ r2 < r1 + 0x7fffffff

instance (l : List (Entry α)) (r1 r2 : Nat) : Decidable (RanksOk l r1 r2) := inferInstanceAs (Decidable (_ ∨ _))

/-- The members of the scores from `s1` to `s2`, from the end of the list where `s1` is the larger. -/
def scoreRange [LinearOrder α] (l : List (Entry α)) (s1 s2 : α) : List Obj :=
  if s1 ≤ s2 then (l.filter fun e => s1 ≤ e.score ∧ e.score ≤ s2).map Entry.obj
  else ((l.filter fun e => s2 ≤ e.score ∧ e.score ≤ s1).reverse).map Entry.obj

section

variable [Zero α] [LinearOrder α] {sl : Skiplist α} {l : List (Entry α)}

/-- The rank of an entry is its place in the list. -/
theorem Holds.getRank_spec (h : Holds sl l) {e : Entry α} (he : Short e.obj) (hlen : l.length < 0x100000000)
    (hok : RankOk l e) : getRank sl e.score e.obj = some (rankOf l e) := by
  obtain ⟨pre, post, hl, -, hcontents, hlt, hge, hshort⟩ := h.split_lt e
  have hnotpre := notMem_map_entry fun d hd => (hlt d hd).ne
  -- a node in front with the member would have a lower score
  have habsent : ∀ d ∈ pre, d.entry.obj ≠ e.obj := by
    intro d hd hobj
    have hmem : d.entry ∈ l := hcontents ▸ List.mem_append_left _ (List.mem_map_of_mem hd)
    rcases Prod.Lex.lt_iff.mp (hlt d hd) with hscore | ⟨-, hmember⟩
    · exact not_lt.mpr (hok.1 d.entry hmem hobj) hscore
    · exact hmember.ne hobj
  have hcells : (pre ++ post).length < 0x100000000 := by
    rw [hcontents] at hlen
    simpa using hlen
  by_cases hhead : ∃ c rest, post = c :: rest ∧ c.entry = e
  · obtain ⟨c, rest, rfl, rfl⟩ := hhead
    have honce : c.entry ∉ rest.map Cell.entry := by
      have hcount := hok.2
      rw [hcontents, List.count_append, List.map_cons, List.count_cons_self] at hcount
      exact List.count_eq_zero.mp (by omega)
    have hrank := hl.slGetRank_spec hshort hlt
      (fun d hd => lt_of_le_of_ne (hge d (List.mem_cons_of_mem c hd)) fun heq => honce (heq ▸ List.mem_map_of_mem hd))
      habsent hcells
    rw [getRank, hrank, rankOf_eq_of_split hcontents hnotpre, Option.map_some, if_neg (Nat.succ_ne_zero _), List.length_map]
  · have hbehind := forall_lt_of_head_ne (List.pairwise_append.mp (hcontents ▸ h.sorted)).2.1 hge hhead
    have hnot : e ∉ l := by
      rw [hcontents]
      exact List.not_mem_append hnotpre (notMem_map_entry fun d hd => (hbehind d hd).ne')
    rw [getRank, hl.slGetRank_of_absent hshort he (fun d hd => (hlt d hd).le) hbehind habsent hcells, rankOf, if_neg hnot]
    rfl

omit [Zero α] [LinearOrder α] in
theorem rangelen_eq {r1 r2 : Nat} (h : r1 < r2 + 0x7fffffff) (h' : r2 < r1 + 0x7fffffff) :
    (rangelen r1 r2).toNat = if r1 ≤ r2 then r2 - r1 + 1 else r1 - r2 + 1 := by
  rw [rangelen]
  split
  · rw [Int.bmod_eq_of_le (by omega) (by omega)]
    rfl
  · rw [Int.bmod_eq_of_le (by omega) (by omega)]
    rfl

theorem Holds.getRankRange_spec (h : Holds sl l) (hlen : l.length < 0x100000000) {r1 r2 : Int}
    (hok : RanksOk l (UInt64.ofInt r1).toNat (UInt64.ofInt r2).toNat) :
    getRankRange sl r1 r2 = some (rankRange l (UInt64.ofInt r1).toNat (UInt64.ofInt r2).toNat) := by
  obtain ⟨cells, hl, -, rfl⟩ := h.nodes
  rw [List.length_map] at hlen
  rw [getRankRange, hl.slGetNodeByRank_spec hlen]
  generalize (UInt64.ofInt r1).toNat = r1 at hok
  generalize (UInt64.ofInt r2).toNat = r2 at hok
  rw [RanksOk, List.length_map] at hok
  simp only [Option.bind_eq_bind, Option.bind_some, rankRange, List.length_map]
  by_cases hzero : r1 = 0
  · subst hzero
    cases (rangelen 0 r2).toNat <;> simp [collect]
  by_cases hlarge : cells.length < r1
  · rw [if_neg hzero, if_pos (.inr hlarge), List.getElem?_eq_none (by omega)]
    cases (rangelen r1 r2).toNat <;> simp [collect]
  obtain ⟨hint, hint'⟩ := (hok.resolve_left hzero).resolve_left hlarge
  rw [if_neg hzero, if_neg fun hor => hor.elim hzero hlarge, rangelen_eq hint hint']
  by_cases hle : r1 ≤ r2
  · have hvisit := (show Linked sl (cells.take (r1 - 1) ++ cells.drop (r1 - 1)) by
      rwa [List.take_append_drop]).visits_forward.collect_eq (r2 - r1 + 1)
    have hread : (cells.drop (r1 - 1)).take (r2 - r1 + 1) = (cells.take r2).drop (r1 - 1) := by
      rw [List.drop_take, show r2 - (r1 - 1) = r2 - r1 + 1 by omega]
    rw [List.head?_drop, hread] at hvisit
    rw [if_pos hle, if_pos hle, decide_eq_false (Nat.not_lt.mpr hle), hvisit, ← List.map_take, ← List.map_drop, List.map_map]
    rfl
  · have hvisit := (show Linked sl (cells.take r1 ++ cells.drop r1) by
      rwa [List.take_append_drop]).visits_backward.collect_eq (r1 - r2 + 1)
    have hhead : (cells.take r1).reverse.head? = cells[r1 - 1]? := by
      rw [List.head?_reverse, List.getLast?_eq_getElem?, List.length_take, Nat.min_eq_left (by omega),
        List.getElem?_take_of_lt (by omega)]
    have hread : (cells.take r1).reverse.take (r1 - r2 + 1) = ((cells.take r1).drop (r2 - 1)).reverse := by
      rw [List.take_reverse, List.length_take, Nat.min_eq_left (by omega)]
      by_cases hr2 : r2 = 0
      · rw [show r1 - (r1 - r2 + 1) = 0 by omega, show r2 - 1 = 0 by omega]
      · rw [show r1 - (r1 - r2 + 1) = r2 - 1 by omega]
    rw [hhead, hread] at hvisit
    rw [if_neg hle, if_neg hle, decide_eq_true (Nat.not_le.mp hle), hvisit, ← List.map_take, ← List.map_drop,
      ← List.map_reverse, List.map_map]
    rfl

omit [Zero α] in
theorem score_le_of_le {a b : Entry α} (h : a ≤ b) : a.score ≤ b.score := Prod.Lex.monotone_fst a b h

theorem Holds.notMem_of_slIsInRange (h : Holds sl l) {min max : α} (hle : min ≤ max)
    (hin : slIsInRange sl min max = some false) : ∀ e ∈ l, ¬ (min ≤ e.score ∧ e.score ≤ max) := by
  obtain ⟨cells, hl, -, rfl⟩ := h.nodes
  rw [hl.slIsInRange_spec, decide_eq_true hle, Bool.true_and, Option.some.injEq, Bool.and_eq_false_iff] at hin
  rintro e he ⟨hmin, hmax⟩
  rcases hin with hlast | hfirst
  · cases cells using List.reverseRecOn with
    | nil => simp at he
    | append_singleton front d =>
      have hlt : d.entry.score < min := by simpa using hlast
      have hsorted := h.sorted
      rw [List.map_append, List.pairwise_append] at hsorted
      rw [List.map_append, List.mem_append] at he
      rcases he with he | he
      · exact not_lt.mpr hmin (lt_of_le_of_lt (score_le_of_le (hsorted.2.2 e he d.entry (by simp))) hlt)
      · obtain rfl : e = d.entry := by simpa using he
        exact not_lt.mpr hmin hlt
  · cases cells with
    | nil => simp at he
    | cons d rest =>
      have hlt : max < d.entry.score := by simpa using hfirst
      obtain ⟨hd, -⟩ := List.pairwise_cons.mp h.sorted
      rcases List.mem_cons.mp he with rfl | he
      · exact not_lt.mpr hmax hlt
      · exact not_lt.mpr hmax (lt_of_lt_of_le hlt (score_le_of_le (hd e he)))

omit [Zero α] in
theorem filter_scores_eq_takeWhile {p q : List (Entry α)} {s1 s2 : α} (hsorted : (p ++ q).Pairwise (· ≤ ·))
    (hp : ∀ e ∈ p, e.score < s1) (hq : ∀ e ∈ q, s1 ≤ e.score) :
    (p ++ q).filter (fun e => decide (s1 ≤ e.score ∧ e.score ≤ s2)) = q.takeWhile fun e => !decide (s2 < e.score) := by
  rw [List.filter_append, List.filter_eq_nil_iff.mpr, List.nil_append]
  · rw [← filter_eq_takeWhile (List.pairwise_append.mp hsorted).2.1]
    · refine List.filter_congr fun e he => ?_
      rw [Bool.eq_iff_iff]
      simp [hq e he]
    · intro a b hab hb
      rw [Bool.not_eq_true', decide_eq_false_iff_not, not_lt] at hb ⊢
      exact le_trans (score_le_of_le hab) hb
  · intro e he hin
    exact not_lt.mpr (of_decide_eq_true hin).1 (hp e he)

omit [Zero α] in
theorem filter_scores_reverse_eq_takeWhile {p q : List (Entry α)} {s1 s2 : α} (hsorted : (p ++ q).Pairwise (· ≤ ·))
    (hp : ∀ e ∈ p, e.score ≤ s1) (hq : ∀ e ∈ q, s1 < e.score) :
    ((p ++ q).filter (fun e => decide (s2 ≤ e.score ∧ e.score ≤ s1))).reverse =
      p.reverse.takeWhile fun e => !decide (e.score < s2) := by
  have hnone : q.filter (fun e => decide (s2 ≤ e.score ∧ e.score ≤ s1)) = [] :=
    List.filter_eq_nil_iff.mpr fun e he hin => not_lt.mpr (of_decide_eq_true hin).2 (hq e he)
  rw [List.filter_append, hnone, List.append_nil]
  · have hrev : p.reverse.Pairwise (fun a b => b ≤ a) := List.pairwise_reverse.mpr (List.pairwise_append.mp hsorted).1
    rw [← List.filter_reverse, ← filter_eq_takeWhile hrev]
    · refine List.filter_congr fun e he => ?_
      rw [Bool.eq_iff_iff]
      simp [hp e (List.mem_reverse.mp he)]
    · intro a b hab hb
      rw [Bool.not_eq_true', decide_eq_false_iff_not, not_lt] at hb ⊢
      exact le_trans hb (score_le_of_le hab)

theorem Holds.getScoreRange_spec (h : Holds sl l) (s1 s2 : α) : getScoreRange sl s1 s2 = some (scoreRange l s1 s2) := by
  rw [getScoreRange, scoreRange]
  by_cases hle : s1 ≤ s2
  · rw [if_pos hle, if_pos hle]
    obtain ⟨pre, post, hl, -, hpre, hpost, hlt, hge, -⟩ := h.split (fun a => decide (a.score < s1))
      fun a b hab hb => decide_eq_true (lt_of_le_of_lt (score_le_of_le hab) (of_decide_eq_true hb))
    obtain ⟨inRange, hin, hfirst⟩ := hl.slFirstInRange_spec s1 s2
      (fun d hd => of_decide_eq_true (hlt d hd)) fun d hd => not_lt.mp (of_decide_eq_false (hge d hd))
    rw [hfirst]
    cases inRange with
    | false =>
      have hnone := h.notMem_of_slIsInRange hle hin
      rw [List.filter_eq_nil_iff.mpr fun e he hin => hnone e he (of_decide_eq_true hin)]
      simp [collectUntil]
    | true =>
      have hcontents : l = pre.map Cell.entry ++ post.map Cell.entry := by
        rw [hpre, hpost, List.takeWhile_append_dropWhile]
      have hfuel : post.length < sl.length + 1 := by
        rw [hl.length, List.length_append]
        omega
      simp only [if_true, Option.bind_eq_bind, Option.bind_some]
      rw [hl.visits_forward.collectUntil_eq _ hfuel, hcontents, filter_scores_eq_takeWhile (hcontents ▸ h.sorted)
        (List.forall_mem_map.mpr fun d hd => of_decide_eq_true (hlt d hd))
        (List.forall_mem_map.mpr fun d hd => not_lt.mp (of_decide_eq_false (hge d hd))), List.takeWhile_map, List.map_map]
      rfl
  · have hlt' := not_le.mp hle
    rw [if_neg hle, if_neg hle]
    obtain ⟨pre, post, hl, -, hpre, hpost, hlt, hge, -⟩ := h.split (fun a => decide (a.score ≤ s1))
      fun a b hab hb => decide_eq_true (le_trans (score_le_of_le hab) (of_decide_eq_true hb))
    obtain ⟨inRange, hin, y, hy, hlast⟩ := hl.slLastInRange_spec s2 s1
      (fun d hd => of_decide_eq_true (hlt d hd)) fun d hd => not_le.mp (of_decide_eq_false (hge d hd))
    rw [hlast]
    cases inRange with
    | false =>
      have hnone := h.notMem_of_slIsInRange hlt'.le hin
      rw [List.filter_eq_nil_iff.mpr fun e he hin => hnone e he (of_decide_eq_true hin)]
      simp [collectUntil]
    | true =>
      have hcontents : l = pre.map Cell.entry ++ post.map Cell.entry := by
        rw [hpre, hpost, List.takeWhile_append_dropWhile]
      have hfuel : pre.reverse.length < sl.length + 1 := by
        rw [hl.length, List.length_append, List.length_reverse]
        omega
      -- the list has a first node, and it is not above the range
      have hlastpre : pre.reverse.head? = some y := by
        rw [List.head?_reverse]
        cases pre using List.reverseRecOn with
        | nil =>
          rw [hl.slIsInRange_spec, List.nil_append, Option.some.injEq, Bool.and_eq_true, Option.any_eq_true] at hin
          obtain ⟨-, d, hd, hdle⟩ := hin
          exact absurd (of_decide_eq_true hdle) (of_decide_eq_false (hge d (List.mem_of_mem_head? hd)))
        | append_singleton front d => rwa [← List.cons_append, List.getLast?_concat, ← List.getLast?_concat] at hy
      have hvisit := hl.visits_backward.collectUntil_eq (fun score => decide (score < s2)) hfuel
      rw [hlastpre] at hvisit
      simp only [if_true, Option.bind_eq_bind, Option.bind_some]
      rw [Option.map_some] at hvisit
      rw [hvisit, hcontents, filter_scores_reverse_eq_takeWhile (hcontents ▸ h.sorted)
        (List.forall_mem_map.mpr fun d hd => of_decide_eq_true (hlt d hd))
        (List.forall_mem_map.mpr fun d hd => not_le.mp (of_decide_eq_false (hge d hd))), ← List.map_reverse,
        List.takeWhile_map, List.map_map]
      rfl

/-! ### Runs of calls -/

end

/-- The calls of the Lua library; an insertion draws its random numbers. -/
inductive Call (α : Type) where
  | insert (draws : List Nat) (score : α) (member : Obj)
  | delete (score : α) (member : Obj)
  | deleteByRank (start last : Int)
  | getCount
  | getRank (score : α) (member : Obj)
  | getRankRange (r1 r2 : Int)
  | getScoreRange (s1 s2 : α)

/-- What a call returns; the members that `delete_by_rank` hands to its callback are part of it. -/
inductive Answer where
  | nothing
  | deleted (found : Bool)
  | removed (members : List Obj)
  | count (n : Nat)
  | rank (rank : Option Nat)
  | members (members : List Obj)
deriving DecidableEq

section

variable [LinearOrder α]

/-- A call of the C library. -/
def call (sl : Skiplist α) : Call α → Option (Answer × Skiplist α)
  | .insert draws score member => (slInsert sl draws score member).map fun sl => (.nothing, sl)
  | .delete score member => (slDelete sl score member).map fun (found, sl) => (.deleted found, sl)
  | .deleteByRank start last => (deleteByRank sl start last).map fun (members, sl) => (.removed members, sl)
  | .getCount => some (.count sl.length, sl)
  | .getRank score member => (getRank sl score member).map fun rank => (.rank rank, sl)
  | .getRankRange r1 r2 => (getRankRange sl r1 r2).map fun members => (.members members, sl)
  | .getScoreRange s1 s2 => (getScoreRange sl s1 s2).map fun members => (.members members, sl)

/-- The same call on a sorted list of entries. -/
def listCall (l : List (Entry α)) : Call α → Answer × List (Entry α)
  | .insert _ score member => (.nothing, l.orderedInsert (· ≤ ·) (toLex (score, member)))
  | .delete score member => (.deleted (decide (toLex (score, member) ∈ l)), l.erase (toLex (score, member)))
  | .deleteByRank start last =>
    let from_ := min (UInt32.ofInt start).toNat (UInt32.ofInt last).toNat
    let to_ := max (UInt32.ofInt start).toNat (UInt32.ofInt last).toNat
    (.removed (((l.take to_).drop (from_ - 1)).map Entry.obj), l.take (from_ - 1) ++ l.drop to_)
  | .getCount => (.count l.length, l)
  | .getRank score member => (.rank (rankOf l (toLex (score, member))), l)
  | .getRankRange r1 r2 => (.members (rankRange l (UInt64.ofInt r1).toNat (UInt64.ofInt r2).toNat), l)
  | .getScoreRange s1 s2 => (.members (scoreRange l s1 s2), l)

/-- Members are short enough to be compared, and where ranks are used they fit into a span. A rank is asked for where the
member is not in the list with a lower score, a range of ranks where their number is an `int`. -/
def Call.Ok (l : List (Entry α)) : Call α → Prop
  | .insert _ _ member => Short member
  | .delete _ member => Short member
  | .deleteByRank _ _ => l.length < 0x100000000
  | .getCount => True
  | .getRank score member => Short member ∧ l.length < 0x100000000 ∧ RankOk l (toLex (score, member))
  | .getRankRange r1 r2 => l.length < 0x100000000 ∧ RanksOk l (UInt64.ofInt r1).toNat (UInt64.ofInt r2).toNat
  | .getScoreRange _ _ => True

instance (l : List (Entry α)) : (c : Call α) → Decidable (c.Ok l)
  | .insert _ _ member => inferInstanceAs (Decidable (Short member))
  | .delete _ member => inferInstanceAs (Decidable (Short member))
  | .deleteByRank _ _ => inferInstanceAs (Decidable (_ < _))
  | .getCount => inferInstanceAs (Decidable True)
  | .getRank _ _ => inferInstanceAs (Decidable (_ ∧ _))
  | .getRankRange _ _ => inferInstanceAs (Decidable (_ ∧ _))
  | .getScoreRange _ _ => inferInstanceAs (Decidable True)

variable [Zero α] {sl : Skiplist α} {l : List (Entry α)}

theorem Holds.deleteByRank_spec (h : Holds sl l) (hlen : l.length < 0x100000000) (start last : Int) :
    ∃ sl', deleteByRank sl start last = some (((l.take (max (UInt32.ofInt start).toNat (UInt32.ofInt last).toNat)).drop
        (min (UInt32.ofInt start).toNat (UInt32.ofInt last).toNat - 1)).map Entry.obj, sl') ∧
      Holds sl' (l.take (min (UInt32.ofInt start).toNat (UInt32.ofInt last).toNat - 1) ++
        l.drop (max (UInt32.ofInt start).toNat (UInt32.ofInt last).toNat)) := by
  rw [deleteByRank]
  by_cases hlt : UInt32.ofInt last < UInt32.ofInt start
  · have hle := Nat.le_of_lt (UInt32.lt_iff_toNat_lt.mp hlt)
    obtain ⟨sl', hrun, h'⟩ := h.slDeleteByRank_spec hlen (UInt32.ofInt last) (UInt32.ofInt start)
    rw [Nat.max_eq_right (Nat.le_trans (Nat.sub_le _ 1) hle)] at h'
    rw [Nat.max_eq_left hle, Nat.min_eq_right hle]
    exact ⟨sl', by simp only [if_pos hlt, hrun], h'⟩
  · have hle := Nat.not_lt.mp (mt UInt32.lt_iff_toNat_lt.mpr hlt)
    obtain ⟨sl', hrun, h'⟩ := h.slDeleteByRank_spec hlen (UInt32.ofInt start) (UInt32.ofInt last)
    rw [Nat.max_eq_right (Nat.le_trans (Nat.sub_le _ 1) hle)] at h'
    rw [Nat.max_eq_right hle, Nat.min_eq_left hle]
    exact ⟨sl', by simp only [if_neg hlt, hrun], h'⟩

theorem Holds.length_eq (h : Holds sl l) : sl.length = l.length := by
  obtain ⟨cells, hl, -, rfl⟩ := h.nodes
  rw [hl.length, List.length_map]

/-- One call of the library is one call on the sorted list. -/
theorem call_simulates : Simulates (call (α := α)) listCall (fun l c => c.Ok l) Holds := by
  intro sl l c h hok
  cases c with
  | insert draws score member =>
    obtain ⟨sl', hrun, h'⟩ := h.slInsert_spec draws (e := toLex (score, member)) hok
    exact ⟨sl', congrArg (Option.map _) hrun, h'⟩
  | delete score member =>
    obtain ⟨sl', hrun, h'⟩ := h.slDelete_spec (e := toLex (score, member)) hok
    exact ⟨sl', congrArg (Option.map _) hrun, h'⟩
  | deleteByRank start last =>
    obtain ⟨sl', hrun, h'⟩ := h.deleteByRank_spec hok start last
    exact ⟨sl', congrArg (Option.map _) hrun, h'⟩
  | getCount => exact ⟨sl, by rw [call, h.length_eq, listCall], h⟩
  | getRank score member =>
    exact ⟨sl, congrArg (Option.map _) (h.getRank_spec (e := toLex (score, member)) hok.1 hok.2.1 hok.2.2), h⟩
  | getRankRange r1 r2 => exact ⟨sl, congrArg (Option.map _) (h.getRankRange_spec hok.1 hok.2), h⟩
  | getScoreRange s1 s2 => exact ⟨sl, congrArg (Option.map _) (h.getScoreRange_spec s1 s2), h⟩

omit [LinearOrder α] [Zero α] in
theorem rankRange_of_le {r1 r2 : Nat} (h1 : 0 < r1) (hle : r1 ≤ r2) (hlen : r2 ≤ l.length) :
    rankRange l r1 r2 = ((l.take r2).drop (r1 - 1)).map Entry.obj ∧
      rankRange l r2 r1 = (((l.take r2).drop (r1 - 1)).map Entry.obj).reverse := by
  refine ⟨?_, ?_⟩
  · rw [rankRange, if_neg fun h => h.elim (fun h => by omega) (fun h => by omega), if_pos hle]
  · rw [rankRange, if_neg fun h => h.elim (fun h => by omega) (fun h => by omega)]
    rcases Nat.lt_or_eq_of_le hle with hlt | rfl
    · rw [if_neg (Nat.not_le.mpr hlt), List.map_reverse]
    · -- a range of one member is its own reverse
      rw [if_pos (Nat.le_refl r1), List.drop_take, show r1 - (r1 - 1) = 1 by omega]
      cases l.drop (r1 - 1) with
      | nil => rfl
      | cons e rest => rfl

theorem Holds.getRankRange_reverse (h : Holds sl l) {r1 r2 : Nat} (h1 : 0 < r1) (hle : r1 ≤ r2) (hlen : r2 ≤ sl.length)
    (hint : sl.length < 0x7fffffff) : ∃ members, getRankRange sl r1 r2 = some members ∧
      getRankRange sl r2 r1 = some members.reverse ∧ members.length = r2 - r1 + 1 := by
  rw [h.length_eq] at hlen hint
  have hcast : ∀ k : Nat, k ≤ r2 → (UInt64.ofInt k).toNat = k := by
    intro k hk
    rw [UInt64.ofInt, UInt64.toNat_ofNat']
    omega
  have hok : ∀ k k', k ≤ l.length → k' ≤ l.length → RanksOk l k k' := by
    intro k k' hk hk'
    unfold RanksOk
    omega
  obtain ⟨hforward, hbackward⟩ := rankRange_of_le h1 hle hlen
  refine ⟨((l.take r2).drop (r1 - 1)).map Entry.obj, ?_, ?_, ?_⟩
  · rw [h.getRankRange_spec (by omega) (by rw [hcast r1 hle, hcast r2 (Nat.le_refl _)]; exact hok r1 r2 (by omega) hlen),
      hcast r1 hle, hcast r2 (Nat.le_refl _), hforward]
  · rw [h.getRankRange_spec (by omega) (by rw [hcast r1 hle, hcast r2 (Nat.le_refl _)]; exact hok r2 r1 hlen (by omega)),
      hcast r1 hle, hcast r2 (Nat.le_refl _), hbackward]
  · rw [List.length_map, List.length_drop, List.length_take, Nat.min_eq_left hlen]
    omega

/-- **Back and forth.** After every run of calls, a range of existing ranks, or of scores, is read backwards by exchanging
its ends. -/
theorem getRange_reverse (calls : List (Call α)) (hok : Allowed listCall (fun l c => c.Ok l) [] calls)
    {given : List Answer} {sl : Skiplist α} (hrun : trace call slCreate calls = some (given, sl)) :
    (∀ r1 r2 : Nat, 0 < r1 → r1 ≤ r2 → r2 ≤ sl.length → sl.length < 0x7fffffff →
      ∃ members, getRankRange sl r1 r2 = some members ∧ getRankRange sl r2 r1 = some members.reverse ∧
        members.length = r2 - r1 + 1) ∧
    ∀ s1 s2 : α, s1 < s2 →
      ∃ members, getScoreRange sl s1 s2 = some members ∧ getScoreRange sl s2 s1 = some members.reverse := by
  obtain ⟨sl', htrace, h⟩ := call_simulates.trace_eq holds_slCreate hok
  obtain rfl : sl' = sl := congrArg Prod.snd (Option.some.inj (htrace.symm.trans hrun))
  refine ⟨fun r1 r2 h1 hle hlen hint => h.getRankRange_reverse h1 hle hlen hint, fun s1 s2 hlt => ?_⟩
  refine ⟨scoreRange _ s1 s2, h.getScoreRange_spec s1 s2, ?_⟩
  rw [h.getScoreRange_spec, scoreRange, scoreRange, if_neg (not_le.mpr hlt), if_pos hlt.le, List.map_reverse]

theorem getRange_reverse_two : ∃ (given : List Answer) (sl : Skiplist Int),
    trace call slCreate [.insert [] 5 [97], .insert [0] 3 [98]] = some (given, sl) ∧
      ∃ members, getRankRange sl 1 2 = some members ∧ getRankRange sl 2 1 = some members.reverse ∧
        members.length = 2 :=
  ⟨_, _, rfl, (getRange_reverse [.insert [] 5 [97], .insert [0] 3 [98]] (by decide) rfl).1 1 2 (by decide) (by decide)
    (by decide) (by decide)⟩

end

end SkynetServer.Sl
