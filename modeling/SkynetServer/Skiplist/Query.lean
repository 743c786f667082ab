import SkynetServer.Skiplist.Delete

/-!
# Queries

What the searches by rank and by score return, and that `slFree` frees every node once. A search by rank returns the node of
that rank as long as the ranks fit into the 32 bits of a span. `slGetRank` stops at the first node with the member it looks
for, whatever its score, so that it is right when the member is not in the list with a lower score and at most once with the
one asked for.
-/

namespace SkynetServer.Sl

open Lib

variable {α : Type} [Zero α] {sl : Skiplist α} {cells pre post : List (Cell α)}

/-! ### By rank -/

theorem Linked.slGetNodeByRank_spec (hl : Linked sl cells) (hlen : cells.length < 0x100000000) (rank : Nat) :
    slGetNodeByRank sl rank = some (if rank = 0 then none else cells[rank - 1]?.map Cell.id) := by
  rw [slGetNodeByRank, hl.length]
  by_cases hzero : rank = 0
  · rw [if_pos (.inl hzero), if_pos hzero]
  rw [if_neg hzero]
  by_cases hlarge : cells.length < rank
  · rw [if_pos (.inr hlarge), List.getElem?_eq_none (by omega)]
    rfl
  rw [if_neg fun h => h.elim hzero hlarge]
  obtain ⟨pre, rest, hpre, hrest⟩ : ∃ pre rest, pre = cells.take rank ∧ rest = cells.drop rank := ⟨_, _, rfl, rfl⟩
  have hsplit : cells = pre ++ rest := by rw [hpre, hrest, List.take_append_drop]
  have hprelen : pre.length = rank := by rw [hpre, List.length_take, Nat.min_eq_left (Nat.not_lt.mp hlarge)]
  have hl' : Linked sl (pre ++ rest) := hsplit ▸ hl
  have hguide : Guide (fun crossed span _ => some (decide (crossed + span.toNat ≤ rank)))
      (fun crossed span => crossed + span.toNat) id (headCell sl :: (pre ++ rest)) pre.length :=
    guide_of_rank (fun k => decide (k ≤ rank)) (fun k _ _ => by rw [hprelen]) (hsplit ▸ hlen)
  obtain ⟨y, hy, hseek⟩ := hl'.seek_spec hguide (fun _ crossed => some (decide (crossed = rank)))
    fun i y t hlast => by
      have ht := hlast.length_lt
      rw [List.length_cons] at ht
      refine congrArg some (decide_eq_decide.mpr ?_)
      rw [id, hprelen, ← List.length_eq_zero_iff]
      omega
  have hlast : cells[rank - 1]? = some y := by
    obtain ⟨d, front, rfl⟩ : ∃ d front, pre = front ++ [d] := by
      cases pre using List.reverseRecOn with
      | nil => exact absurd hprelen.symm hzero
      | append_singleton front d => exact ⟨d, front, rfl⟩
    rw [← List.cons_append, List.getLast?_concat] at hy
    obtain rfl : d = y := Option.some.inj hy
    exact getElem?_of_split front d rest (by rw [hsplit]; simp) (by simp at hprelen; omega)
  rw [hlast]
  rw [hl.length] at hseek
  show (do let found ← seek sl.heap _ _ _ _ _ _ (id 0); _) = _
  rw [hseek]
  rfl

section

variable [LinearOrder α] {e : Entry α}

theorem Linked.guide_le (hl : Linked sl (pre ++ post)) (hshort : ∀ d ∈ pre ++ post, Short d.entry.obj) (he : Short e.obj)
    (hpre : ∀ d ∈ pre, d.entry ≤ e) (hpost : ∀ d ∈ post, e < d.entry) (hlen : (pre ++ post).length < 0x100000000) :
    Guide (fun _ _ y => ahead (· ≤ 0) sl.heap e.score e.obj y) (fun crossed span => crossed + span.toNat) id
      (headCell sl :: (pre ++ post)) pre.length := by
  refine guide_of_node (fun d hd => ?_) (fun d hd => ?_) (add_toNat_ofNat hlen)
  · have hmem : d ∈ pre ++ post := List.mem_append_left post hd
    rw [hl.ahead_le hmem (hshort d hmem) he, decide_eq_true (hpre d hd)]
  · have hmem : d ∈ pre ++ post := List.mem_append_right pre hd
    rw [hl.ahead_le hmem (hshort d hmem) he, decide_eq_false (not_le.mpr (hpost d hd))]

omit [LinearOrder α] in
theorem Linked.found_spec (hl : Linked sl cells) (hshort : ∀ d ∈ cells, Short d.entry.obj) (he : Short e.obj) :
    ∀ y ∈ headCell sl :: cells, (do
      let node ← sl.heap y.id
      return node.obj.any fun obj => equalslObj obj e.obj) =
        some (decide (y.id ≠ sl.header ∧ y.entry.obj = e.obj)) := by
  intro y hy
  rcases List.mem_cons.mp hy with rfl | hy
  · obtain ⟨level, hnode, -⟩ := shape_eq_some hl.header
    show (do let node ← sl.heap sl.header; _) = _
    simp [hnode, headCell]
  · obtain ⟨front, behind, hsplit⟩ := List.append_of_mem hy
    obtain ⟨level, hnode, -⟩ := shape_eq_some (hl.shapes front y behind hsplit)
    have hne : y.id ≠ sl.header := by
      have hnodup := hl.nodup
      rw [← List.singleton_append] at hnodup
      exact (name_ne_of_mem (x := headCell sl) hnodup (by simp) hy).symm
    simp only [Option.bind_eq_bind, hnode, Option.bind_some, Option.any_some]
    refine congrArg some ?_
    rw [Bool.eq_iff_iff, equalslObj_iff (hshort y hy) he]
    simp [hne]

/-- **The rank of an entry**, where its member is in the list with no other score. -/
theorem Linked.slGetRank_spec {c : Cell α} (hl : Linked sl (pre ++ c :: post))
    (hshort : ∀ d ∈ pre ++ c :: post, Short d.entry.obj) (hpre : ∀ d ∈ pre, d.entry < c.entry)
    (hpost : ∀ d ∈ post, c.entry < d.entry) (hunique : ∀ d ∈ pre, d.entry.obj ≠ c.entry.obj)
    (hlen : (pre ++ c :: post).length < 0x100000000) :
    slGetRank sl c.entry.score c.entry.obj = some (pre.length + 1) := by
  have hsplit : pre ++ c :: post = (pre ++ [c]) ++ post := by simp
  have hc : Short c.entry.obj := hshort c (by simp)
  have hfound := hl.found_spec hshort hc
  rw [hsplit] at hl hshort hlen hfound
  have hguide := hl.guide_le hshort hc
    (List.forall_mem_append.mpr ⟨fun d hd => (hpre d hd).le, by simp⟩) hpost hlen
  have hlastc : (headCell sl :: (pre ++ [c])).getLast? = some c := by rw [← List.cons_append, List.getLast?_concat]
  have hcheader : c.id ≠ sl.header := by
    have hnodup := hl.nodup
    rw [← List.singleton_append] at hnodup
    exact (name_ne_of_mem (x := headCell sl) hnodup (by simp) (by simp)).symm
  obtain ⟨y, hy, hseek⟩ := hl.seek_spec hguide (fun x _ => do
      let node ← sl.heap x
      return node.obj.any fun obj => equalslObj obj c.entry.obj) fun i y t hlast => by
    have hmem : y ∈ headCell sl :: (pre ++ [c] ++ post) := by
      rw [← List.cons_append]
      exact List.mem_append_left post hlast.mem
    refine (hfound y hmem).trans (congrArg some (decide_eq_decide.mpr ?_))
    obtain ⟨u, hu⟩ := hlast.split
    cases t using List.reverseRecOn with
    | nil =>
      have hyc : y = c := by
        rw [hu, List.getLast?_concat] at hlastc
        exact Option.some.inj hlastc
      subst hyc
      exact iff_of_true ⟨hcheader, rfl⟩ rfl
    | append_singleton t d =>
      -- a node in front of the last one is the header or has another member
      rw [← List.cons_append, ← List.cons_append, ← List.append_assoc] at hu
      have hfront := (List.append_inj' hu rfl).1
      refine iff_of_false (fun h => ?_) (by simp)
      have hy : y ∈ headCell sl :: pre := by simp [hfront]
      rcases List.mem_cons.mp hy with rfl | hy
      · exact h.1 rfl
      · exact hunique y hy h.2
  rw [slGetRank]
  show (do let found ← seek sl.heap _ _ _ _ _ _ (id 0); _) = _
  rw [hseek]
  simp

/-- An entry that is not in the list has no rank, where its member is not among the nodes that the search goes past. -/
theorem Linked.slGetRank_of_absent (hl : Linked sl (pre ++ post)) (hshort : ∀ d ∈ pre ++ post, Short d.entry.obj)
    (he : Short e.obj) (hpre : ∀ d ∈ pre, d.entry ≤ e) (hpost : ∀ d ∈ post, e < d.entry)
    (habsent : ∀ d ∈ pre, d.entry.obj ≠ e.obj) (hlen : (pre ++ post).length < 0x100000000) :
    slGetRank sl e.score e.obj = some 0 := by
  have hfound := hl.found_spec hshort he
  have hseek := hl.seek_none (hl.guide_le hshort he hpre hpost hlen) (fun x _ => do
      let node ← sl.heap x
      return node.obj.any fun obj => equalslObj obj e.obj) fun y hy k => by
    have hmem : y ∈ headCell sl :: (pre ++ post) := by
      rw [← List.cons_append]
      exact List.mem_append_left post hy
    refine (hfound y hmem).trans (congrArg some (decide_eq_false fun h => ?_))
    rcases List.mem_cons.mp hy with rfl | hy
    · exact h.1 rfl
    · exact habsent y hy h.2
  rw [slGetRank]
  show (do let found ← seek sl.heap _ _ _ _ _ _ (id 0); _) = _
  rw [hseek]
  rfl

/-! ### By score -/

omit [LinearOrder α] in
theorem Linked.stopAt_spec (hl : Linked sl (pre ++ post)) (go : α → Bool) (hpre : ∀ d ∈ pre, go d.entry.score = true)
    (hpost : ∀ d ∈ post, go d.entry.score = false) : ∃ y, (headCell sl :: pre).getLast? = some y ∧
      stopAt sl go = some y.id ∧ link sl.heap y.id 0 = some (linkOf 0 post) := by
  have hnode : ∀ d ∈ pre ++ post, (sl.heap d.id).map (fun node => go node.score) = some (go d.entry.score) := by
    intro d hd
    obtain ⟨front, behind, hsplit⟩ := List.append_of_mem hd
    obtain ⟨level, hnode, -⟩ := shape_eq_some (hl.shapes front d behind hsplit)
    simp [hnode]
  have hguide : Guide (fun _ _ y => (sl.heap y).map fun node => go node.score) (fun _ _ => ()) (fun _ => ())
      (headCell sl :: (pre ++ post)) pre.length :=
    guide_of_node (fun d hd => (hnode d (List.mem_append_left post hd)).trans (congrArg some (hpre d hd)))
      (fun d hd => (hnode d (List.mem_append_right pre hd)).trans (congrArg some (hpost d hd))) fun _ _ _ => rfl
  obtain ⟨path, hdescend, hlen, hstops⟩ := hl.descend_spec hguide
  obtain ⟨y, t, hlast, hat⟩ := exists_stop hlen hstops 0 hl.level_pos
  obtain rfl := hlast.behind_eq_nil fun d hd => hl.height_pos d (by
    rw [← List.cons_append]
    exact List.mem_append_left post hd)
  obtain ⟨u, hu⟩ := hlast.split
  refine ⟨y, by rw [hu, List.getLast?_concat], ?_, hl.link_path hlast⟩
  rw [stopAt, hdescend]
  simp [hat]

/-- The nodes of the scores from `min` to `max` may be missing, but then the list is not on one side of them. -/
theorem Linked.slIsInRange_spec (hl : Linked sl cells) (min max : α) : slIsInRange sl min max =
    some (decide (min ≤ max) && cells.getLast?.any (fun d => decide (min ≤ d.entry.score)) &&
      cells.head?.any fun d => decide (d.entry.score ≤ max)) := by
  rw [slIsInRange, hl.tail]
  by_cases hmm : max < min
  · simp [hmm]
  rw [if_neg hmm, decide_eq_true (not_lt.mp hmm)]
  cases cells using List.reverseRecOn with
  | nil => rfl
  | append_singleton front d =>
    obtain ⟨level, hnode, -⟩ := shape_eq_some (hl.shapes front d [] rfl)
    rw [List.getLast?_concat]
    by_cases hd : d.entry.score < min
    · simp [hnode, hd]
    · have hfirst := hl.links [] (headCell sl) (front ++ [d]) rfl 0 hl.level_pos
      have hzero : (linkOf 0 (front ++ [d])).forward = (front ++ [d]).head?.map Cell.id :=
        (show Linked sl ([] ++ (front ++ [d])) from hl).linkOf_zero
      obtain ⟨x, rest, hx⟩ : ∃ x rest, front ++ [d] = x :: rest := List.exists_cons_of_ne_nil (by simp)
      obtain ⟨level', hnode', -⟩ := shape_eq_some (hl.shapes [] x rest hx)
      rw [hx] at hfirst hzero
      simp only [Option.map_some, hnode, hd, Option.bind_eq_bind, Option.bind_some, if_false, hx]
      rw [show link sl.heap sl.header 0 = _ from hfirst]
      simp [hzero, hnode', hd, ← not_lt]

theorem Linked.slFirstInRange_spec (hl : Linked sl (pre ++ post)) (min max : α) (hpre : ∀ d ∈ pre, d.entry.score < min)
    (hpost : ∀ d ∈ post, min ≤ d.entry.score) : ∃ inRange, slIsInRange sl min max = some inRange ∧
      slFirstInRange sl min max = some (if inRange then post.head?.map Cell.id else none) := by
  refine ⟨_, hl.slIsInRange_spec min max, ?_⟩
  obtain ⟨y, -, hstop, hlink⟩ := hl.stopAt_spec (fun score => decide (score < min))
    (fun d hd => decide_eq_true (hpre d hd)) fun d hd => decide_eq_false (not_lt.mpr (hpost d hd))
  rw [slFirstInRange, hl.slIsInRange_spec min max]
  simp only [Option.bind_eq_bind, Option.bind_some, hstop, hlink, hl.linkOf_zero]
  split <;> rfl

theorem Linked.slLastInRange_spec (hl : Linked sl (pre ++ post)) (min max : α) (hpre : ∀ d ∈ pre, d.entry.score ≤ max)
    (hpost : ∀ d ∈ post, max < d.entry.score) : ∃ inRange, slIsInRange sl min max = some inRange ∧
      ∃ y, (headCell sl :: pre).getLast? = some y ∧
        slLastInRange sl min max = some (if inRange then some y.id else none) := by
  refine ⟨_, hl.slIsInRange_spec min max, ?_⟩
  obtain ⟨y, hy, hstop, -⟩ := hl.stopAt_spec (fun score => decide (score ≤ max))
    (fun d hd => decide_eq_true (hpre d hd)) fun d hd => decide_eq_false (not_le.mpr (hpost d hd))
  refine ⟨y, hy, ?_⟩
  rw [slLastInRange, hl.slIsInRange_spec min max]
  simp only [Option.bind_eq_bind, Option.bind_some, hstop]
  split <;> rfl

end

/-! ### `slFree` -/

end SkynetServer.Sl
