import Mathlib.Data.List.Nodup
import SkynetServer.Skiplist.Calls

/-!
# The ranking

`zset.lua` keeps the score of each member in a table beside the skip list of the entries, so that a member has one score
and can be found again. A ranking is a sorted list of entries in which no member occurs twice; every run of the operations
of a zset answers what the ranking answers.

A score is a number that a `double` holds exactly, other than NaN: the table keeps the number that it is given, and the skip
list its `double`. Counts and ranks are integers.
-/

namespace SkynetServer.Sl

open Lib

variable {α : Type}

/-! ### The operations of `zset.lua` -/

structure Zset (α : Type) where
  sl : Skiplist α
  tbl : Obj → Option α

namespace Zset

def new [Zero α] : Zset α := { sl := slCreate, tbl := fun _ => none }

section

variable [LinearOrder α]

/-- `mt:add`; the random numbers are those of the insertion. -/
def add (z : Zset α) (draws : List Nat) (score : α) (member : Obj) : Option (Zset α) :=
  match z.tbl member with
  | some old =>
    if old = score then some z
    else do
      let (_, sl) ← slDelete z.sl old member
      let sl ← slInsert sl draws score member
      return { sl, tbl := Function.update z.tbl member (some score) }
  | none => do
    let sl ← slInsert z.sl draws score member
    return { sl, tbl := Function.update z.tbl member (some score) }

def rem (z : Zset α) (member : Obj) : Option (Zset α) :=
  match z.tbl member with
  | some score => do
    let (_, sl) ← slDelete z.sl score member
    return { sl, tbl := Function.update z.tbl member none }
  | none => some z

end

/-- `mt:_reverse_rank`. -/
def reverseRank (z : Zset α) (r : Int) : Int := z.sl.length - r + 1

/-- `delete_by_rank` with the callback that clears the table. -/
def deleteByRank (z : Zset α) (start last : Int) : Option (Int × Zset α) := do
  let (members, sl) ← Sl.deleteByRank z.sl start last
  return (members.length, { sl, tbl := members.foldl (fun tbl member => Function.update tbl member none) z.tbl })

def limit (z : Zset α) (count : Int) : Option (Int × Zset α) :=
  let total : Int := z.sl.length
  if total ≤ count then some (0, z) else z.deleteByRank (count + 1) total

def revLimit (z : Zset α) (count : Int) : Option (Int × Zset α) :=
  let total : Int := z.sl.length
  if total ≤ count then some (0, z) else z.deleteByRank (z.reverseRank (count + 1)) (z.reverseRank total)

def range (z : Zset α) (r1 r2 : Int) : Option (List Obj) :=
  let r1 := if r1 < 1 then 1 else r1
  let r2 := if r2 < 1 then 1 else r2
  getRankRange z.sl r1 r2

def revRange (z : Zset α) (r1 r2 : Int) : Option (List Obj) := z.range (z.reverseRank r1) (z.reverseRank r2)

def rank [LinearOrder α] (z : Zset α) (member : Obj) : Option (Option Int) :=
  match z.tbl member with
  | none => some none
  | some score => (getRank z.sl score member).map fun rank => rank.map Nat.cast

def revRank [LinearOrder α] (z : Zset α) (member : Obj) : Option (Option Int) :=
  (z.rank member).map fun r => r.map z.reverseRank

end Zset

/-! ### Rankings -/

/-- The members with their scores, in their order. -/
structure Ranking (α : Type) [LinearOrder α] where
  entries : List (Entry α)
  sorted : entries.Pairwise (· ≤ ·)
  unique : (entries.map Entry.obj).Nodup

namespace Ranking

variable [LinearOrder α] (r : Ranking α)

def empty : Ranking α := ⟨[], List.Pairwise.nil, List.nodup_nil⟩

def score (member : Obj) : Option α := (r.entries.find? fun e => e.obj = member).map Entry.score

/-- The entries of a part of the list. -/
def sub {l : List (Entry α)} (h : l.Sublist r.entries) : Ranking α :=
  ⟨l, r.sorted.sublist h, r.unique.sublist (h.map Entry.obj)⟩

def rem (member : Obj) : Ranking α := r.sub (l := r.entries.filter fun e => e.obj ≠ member) List.filter_sublist

theorem member_notMem_rem (member : Obj) : member ∉ (r.rem member).entries.map Entry.obj := by
  intro hmem
  obtain ⟨e, he, hobj⟩ := List.mem_map.mp hmem
  exact of_decide_eq_true (List.mem_filter.mp he).2 hobj

/-- The member gets the score, whether it had one or not. -/
def add (score : α) (member : Obj) : Ranking α :=
  ⟨(r.rem member).entries.orderedInsert (· ≤ ·) (toLex (score, member)), (r.rem member).sorted.orderedInsert _ _, by
    refine (((List.perm_orderedInsert (· ≤ ·) _ _).map Entry.obj).nodup_iff).mpr (List.nodup_cons.mpr ⟨?_, ?_⟩)
    · exact r.member_notMem_rem member
    · exact (r.rem member).unique⟩

theorem add_entries (score : α) (member : Obj) :
    (r.add score member).entries = (r.rem member).entries.orderedInsert (· ≤ ·) (toLex (score, member)) := rfl

/-- The first `n`, and all but the first `n`. -/
def first (n : Nat) : Ranking α := r.sub (List.take_sublist n r.entries)

def after (n : Nat) : Ranking α := r.sub (List.drop_sublist n r.entries)

/-- 1 for the first member. -/
def rank (member : Obj) : Option Nat := (r.entries.findIdx? fun e => e.obj = member).map (· + 1)

/-- The members from rank `r1` to rank `r2`, downwards where `r2` is the smaller. -/
def range (r1 r2 : Nat) : List Obj := rankRange r.entries r1 r2

/-- The rank counted from the end. -/
def reverseRank (k : Int) : Int := r.entries.length - k + 1

variable {r} {member : Obj} {s : α}

theorem obj_inj {a b : Entry α} (ha : a ∈ r.entries) (hb : b ∈ r.entries) (h : a.obj = b.obj) : a = b :=
  List.inj_on_of_nodup_map r.unique ha hb h

theorem score_eq_some_iff : r.score member = some s ↔ toLex (s, member) ∈ r.entries := by
  rw [score, Option.map_eq_some_iff]
  constructor
  · rintro ⟨e, he, rfl⟩
    have hobj : e.obj = member := by simpa using List.find?_some he
    subst hobj
    exact List.mem_of_find?_eq_some he
  · intro hmem
    cases hfind : r.entries.find? fun e => e.obj = member with
    | none =>
      have hall := List.find?_eq_none.mp hfind _ hmem
      exact absurd (decide_eq_true rfl) hall
    | some e =>
      have hobj : e.obj = member := by simpa using List.find?_some hfind
      exact ⟨e, rfl, congrArg Entry.score (obj_inj (List.mem_of_find?_eq_some hfind) hmem hobj)⟩

theorem mem_rem_iff {e : Entry α} : e ∈ (r.rem member).entries ↔ e ∈ r.entries ∧ e.obj ≠ member := by
  rw [rem, sub, List.mem_filter, decide_eq_true_iff]

theorem mem_add_iff {e : Entry α} :
    e ∈ (r.add s member).entries ↔ e = toLex (s, member) ∨ e ∈ r.entries ∧ e.obj ≠ member := by
  rw [add_entries, List.mem_orderedInsert, mem_rem_iff]

theorem rem_entries_eq (h : toLex (s, member) ∈ r.entries) :
    (r.rem member).entries = r.entries.erase (toLex (s, member)) := by
  rw [rem, sub, r.unique.of_map.erase_eq_filter]
  refine List.filter_congr fun e he => ?_
  rw [Bool.eq_iff_iff, decide_eq_true_iff, bne_iff_ne]
  exact not_congr ⟨fun hobj => obj_inj he h hobj, fun heq => congrArg Entry.obj heq⟩

theorem rem_entries_of_notMem (h : ∀ s, toLex (s, member) ∉ r.entries) : (r.rem member).entries = r.entries := by
  refine List.filter_eq_self.mpr fun e he => decide_eq_true ?_
  rintro rfl
  exact h e.score he

theorem add_entries_of_mem (h : toLex (s, member) ∈ r.entries) : (r.add s member).entries = r.entries := by
  refine List.Perm.eq_of_pairwise' (r := (· ≤ ·)) (r.add s member).sorted r.sorted ?_
  refine (List.perm_orderedInsert (· ≤ ·) _ _).trans ?_
  rw [rem_entries_eq h]
  exact (List.perm_cons_erase h).symm

theorem rank_eq_of_split {e : Entry α} {p q : List (Entry α)} (h : r.entries = p ++ e :: q) :
    r.rank e.obj = some (p.length + 1) := by
  have hunique := r.unique
  rw [h, List.map_append, List.nodup_append] at hunique
  have hp : p.findIdx? (fun a => decide (a.obj = e.obj)) = none := by
    rw [List.findIdx?_eq_none_iff]
    exact fun a ha => decide_eq_false (hunique.2.2 a.obj (List.mem_map_of_mem ha) e.obj (by simp))
  rw [rank, h, List.findIdx?_append, hp]
  simp [List.findIdx?_cons]

theorem rankOk_of_mem {e : Entry α} (he : e ∈ r.entries) : RankOk r.entries e :=
  ⟨fun _ hd hobj => (congrArg Entry.score (obj_inj he hd hobj.symm)).le, List.nodup_iff_count_le_one.mp r.unique.of_map e⟩

theorem rankOf_eq_rank {e : Entry α} (he : e ∈ r.entries) : rankOf r.entries e = r.rank e.obj := by
  obtain ⟨p, q, h⟩ := List.append_of_mem he
  have hnodup := r.unique.of_map
  rw [h, List.nodup_append] at hnodup
  rw [rank_eq_of_split h, rankOf_eq_of_split h fun hp => hnodup.2.2 e hp e (by simp) rfl]

theorem rank_eq_none (h : ∀ s, toLex (s, member) ∉ r.entries) : r.rank member = none := by
  rw [rank, Option.map_eq_none_iff, List.findIdx?_eq_none_iff]
  refine fun e he => decide_eq_false ?_
  rintro rfl
  exact h e.score he

/-- **A rank counts.** It is one more than the number of entries in front. -/
theorem rank_eq_countP {e : Entry α} (he : e ∈ r.entries) :
    r.rank e.obj = some ((r.entries.countP fun a => decide (a < e)) + 1) := by
  obtain ⟨p, q, h⟩ := List.append_of_mem he
  rw [rank_eq_of_split h]
  have hsorted := r.sorted
  have hnodup := r.unique.of_map
  rw [h, List.pairwise_append] at hsorted
  rw [h, List.nodup_append] at hnodup
  have hp : p.countP (fun a => decide (a < e)) = p.length := by
    rw [List.countP_eq_length]
    exact fun a ha => decide_eq_true (lt_of_le_of_ne (hsorted.2.2 a ha e (by simp)) (hnodup.2.2 a ha e (by simp)))
  have hq : (e :: q).countP (fun a => decide (a < e)) = 0 := by
    rw [List.countP_eq_zero]
    refine List.forall_mem_cons.mpr ⟨by simp, fun a ha hlt => ?_⟩
    exact not_lt.mpr ((List.pairwise_cons.mp hsorted.2.1).1 a ha) (of_decide_eq_true hlt)
  rw [h, List.countP_append, hp, hq]

end Ranking

/-! ### The zset holds the ranking -/

section

variable [LinearOrder α] [Zero α] {z : Zset α} {r : Ranking α}

/-- The skip list and the table hold the same entries. -/
structure Represents (z : Zset α) (r : Ranking α) : Prop where
  holds : Holds z.sl r.entries
  tbl : ∀ member s, z.tbl member = some s ↔ toLex (s, member) ∈ r.entries

theorem represents_new : Represents (Zset.new : Zset α) Ranking.empty :=
  ⟨holds_slCreate, fun member s => by simp [Zset.new, Ranking.empty]⟩

theorem Represents.tbl_eq_score (h : Represents z r) (member : Obj) : z.tbl member = r.score member := by
  ext s
  exact (h.tbl member s).trans Ranking.score_eq_some_iff.symm

theorem Represents.notMem (h : Represents z r) {member : Obj} (hnone : z.tbl member = none) (s : α) :
    toLex (s, member) ∉ r.entries := by
  rw [← h.tbl, hnone]
  exact Option.some_ne_none s ∘ Eq.symm

theorem Represents.add_spec (h : Represents z r) (draws : List Nat) (score : α) {member : Obj} (hshort : Short member) :
    ∃ z', z.add draws score member = some z' ∧ Represents z' (r.add score member) := by
  have htbl : ∀ m s, Function.update z.tbl member (some score) m = some s ↔
      toLex (s, m) ∈ (r.add score member).entries := by
    intro m s
    rw [Ranking.mem_add_iff]
    by_cases hm : m = member
    · subst hm
      rw [Function.update_self, Option.some.injEq, toLex_inj, Prod.mk.injEq]
      exact ⟨fun heq => .inl ⟨heq.symm, rfl⟩, fun hor => hor.elim (fun h => h.1.symm) fun h => absurd rfl h.2⟩
    · rw [Function.update_of_ne hm, h.tbl, toLex_inj, Prod.mk.injEq]
      exact ⟨fun hmem => .inr ⟨hmem, hm⟩, fun hor => hor.elim (fun h => absurd h.2 hm) fun h => h.1⟩
  rw [Zset.add]
  cases hold : z.tbl member with
  | none =>
    obtain ⟨sl', hinsert, hholds⟩ := h.holds.slInsert_spec draws (e := toLex (score, member)) hshort
    have hinsert : slInsert z.sl draws score member = _ := hinsert
    refine ⟨{ sl := sl', tbl := Function.update z.tbl member (some score) }, by simp [hinsert], ?_, htbl⟩
    rwa [Ranking.add_entries, Ranking.rem_entries_of_notMem (h.notMem hold)]
  | some old =>
    have hmem := (h.tbl member old).mp hold
    by_cases heq : old = score
    · subst heq
      refine ⟨z, by simp, ?_, fun m s => ?_⟩
      · rw [Ranking.add_entries_of_mem hmem]
        exact h.holds
      · rw [Ranking.add_entries_of_mem hmem]
        exact h.tbl m s
    · obtain ⟨sl₁, hdelete, hholds₁⟩ := h.holds.slDelete_spec (e := toLex (old, member)) hshort
      obtain ⟨sl', hinsert, hholds⟩ := hholds₁.slInsert_spec draws (e := toLex (score, member)) hshort
      refine ⟨{ sl := sl', tbl := Function.update z.tbl member (some score) }, ?_, ?_, htbl⟩
      · have hdelete : slDelete z.sl old member = _ := hdelete
        have hinsert : slInsert sl₁ draws score member = _ := hinsert
        simp [heq, hdelete, hinsert]
      · rwa [Ranking.add_entries, Ranking.rem_entries_eq hmem]

theorem Represents.rem_spec (h : Represents z r) (member : Obj) :
    ∃ z', z.rem member = some z' ∧ Represents z' (r.rem member) := by
  rw [Zset.rem]
  cases hold : z.tbl member with
  | none =>
    have hentries := Ranking.rem_entries_of_notMem (h.notMem hold)
    exact ⟨z, rfl, by rw [hentries]; exact h.holds, fun m s => by rw [hentries]; exact h.tbl m s⟩
  | some score =>
    have hmem := (h.tbl member score).mp hold
    obtain ⟨sl', hdelete, hholds⟩ := h.holds.slDelete_spec (e := toLex (score, member)) (h.holds.short _ hmem)
    have hdelete : slDelete z.sl score member = _ := hdelete
    refine ⟨{ sl := sl', tbl := Function.update z.tbl member none }, by simp [hdelete], ?_, fun m s => ?_⟩
    · rwa [Ranking.rem_entries_eq hmem]
    · show Function.update z.tbl member none m = some s ↔ _
      rw [Ranking.mem_rem_iff]
      by_cases hm : m = member
      · subst hm
        rw [Function.update_self]
        exact iff_of_false (Option.some_ne_none s ∘ Eq.symm) fun h => h.2 rfl
      · rw [Function.update_of_ne hm, h.tbl]
        exact ⟨fun hmem => ⟨hmem, hm⟩, fun h => h.1⟩

omit [LinearOrder α] [Zero α] in
theorem foldl_update_none (members : List Obj) (tbl : Obj → Option α) (m : Obj) :
    members.foldl (fun tbl member => Function.update tbl member none) tbl m = if m ∈ members then none else tbl m := by
  induction members generalizing tbl with
  | nil => simp
  | cons a members ih =>
    rw [List.foldl_cons, ih]
    by_cases ha : m = a
    · simp [ha]
    · simp [ha]

/-- The members of a segment of the ranks are forgotten, and what is left is the ranking without them. -/
theorem Represents.deleteByRank_spec (h : Represents z r) (hlen : r.entries.length < 0x100000000) (start last : Int)
    {a b : Nat} (ha : min (UInt32.ofInt start).toNat (UInt32.ofInt last).toNat - 1 = a)
    (hb : max (UInt32.ofInt start).toNat (UInt32.ofInt last).toNat = b)
    (hsub : (r.entries.take a ++ r.entries.drop b).Sublist r.entries) :
    ∃ z', z.deleteByRank start last = some ((((r.entries.take b).drop a).length : Int), z') ∧ Represents z' (r.sub hsub) := by
  obtain ⟨sl', hdelete, hholds⟩ := h.holds.deleteByRank_spec hlen start last
  rw [ha, hb] at hdelete hholds
  have hab : a ≤ b := by omega
  refine ⟨⟨sl', (((r.entries.take b).drop a).map Entry.obj).foldl (fun tbl member => Function.update tbl member none) z.tbl⟩,
    by simp [Zset.deleteByRank, hdelete], hholds, fun m s => ?_⟩
  show List.foldl _ z.tbl _ m = some s ↔ toLex (s, m) ∈ r.entries.take a ++ r.entries.drop b
  have hsplit : r.entries = r.entries.take a ++ ((r.entries.take b).drop a ++ r.entries.drop b) := by
    conv_lhs => rw [← List.take_append_drop a r.entries, ← List.take_append_drop (b - a) (r.entries.drop a)]
    rw [List.drop_take, List.drop_drop, Nat.add_sub_cancel' hab]
  have hunique := r.unique
  rw [hsplit] at hunique
  simp only [List.map_append, List.nodup_append] at hunique
  rw [foldl_update_none]
  have hmem : toLex (s, m) ∈ r.entries ↔ toLex (s, m) ∈ r.entries.take a ++ r.entries.drop b ∨
      toLex (s, m) ∈ (r.entries.take b).drop a := by
    conv_lhs => rw [hsplit]
    simp only [List.mem_append]
    tauto
  by_cases hm : m ∈ ((r.entries.take b).drop a).map Entry.obj
  · rw [if_pos hm]
    refine iff_of_false (Option.some_ne_none s ∘ Eq.symm) fun hleft => ?_
    rcases List.mem_append.mp hleft with hleft | hleft
    · exact hunique.2.2 m (List.mem_map_of_mem (f := Entry.obj) hleft) m (List.mem_append_left _ hm) rfl
    · exact hunique.2.1.2.2 m hm m (List.mem_map_of_mem (f := Entry.obj) hleft) rfl
  · rw [if_neg hm, h.tbl, hmem, or_iff_left]
    exact fun hmid => hm (List.mem_map_of_mem (f := Entry.obj) hmid)

omit [LinearOrder α] [Zero α] in
theorem toNat_ofInt_of_lt {n : Nat} (h : n < 0x100000000) : (UInt32.ofInt n).toNat = n := by
  rw [UInt32.ofInt, UInt32.toNat_ofNat']
  omega

/-- `limit` keeps the first members. -/
theorem Represents.limit_spec (h : Represents z r) (hlen : r.entries.length < 0x100000000) (count : Nat) :
    ∃ z', z.limit count = some (((r.entries.length - count : Nat) : Int), z') ∧ Represents z' (r.first count) := by
  rw [Zset.limit, h.holds.length_eq]
  by_cases hle : r.entries.length ≤ count
  · have hfirst : (r.first count).entries = r.entries := List.take_of_length_le hle
    refine ⟨z, ?_, by rw [hfirst]; exact h.holds, fun m s => by rw [hfirst]; exact h.tbl m s⟩
    rw [Nat.sub_eq_zero_of_le hle]
    exact if_pos (by omega)
  · have hsub : (r.entries.take count ++ r.entries.drop r.entries.length).Sublist r.entries := by
      rw [List.drop_length, List.append_nil]
      exact List.take_sublist count r.entries
    have hstart : (UInt32.ofInt ((count : Int) + 1)).toNat = count + 1 := toNat_ofInt_of_lt (n := count + 1) (by omega)
    have hlast : (UInt32.ofInt (r.entries.length : Int)).toNat = r.entries.length := toNat_ofInt_of_lt hlen
    obtain ⟨z', hrun, hz'⟩ := h.deleteByRank_spec hlen ((count : Int) + 1) r.entries.length (a := count)
      (b := r.entries.length) (by rw [hstart, hlast]; omega) (by rw [hstart, hlast]; omega) hsub
    have hentries : (r.sub hsub).entries = (r.first count).entries := by
      show _ ++ _ = _
      rw [List.drop_length, List.append_nil]
      rfl
    refine ⟨z', ?_, by rw [← hentries]; exact hz'.holds, fun m s => by rw [← hentries]; exact hz'.tbl m s⟩
    rw [if_neg (by omega), hrun, List.length_drop, List.length_take, Nat.min_self]

theorem Represents.revLimit_spec (h : Represents z r) (hlen : r.entries.length < 0x100000000) (count : Nat) :
    ∃ z', z.revLimit count = some (((r.entries.length - count : Nat) : Int), z') ∧
      Represents z' (r.after (r.entries.length - count)) := by
  rw [Zset.revLimit, Zset.reverseRank, Zset.reverseRank, h.holds.length_eq]
  by_cases hle : r.entries.length ≤ count
  · rw [Nat.sub_eq_zero_of_le hle]
    exact ⟨z, if_pos (by omega), h.holds, h.tbl⟩
  · have hsub : (r.entries.take 0 ++ r.entries.drop (r.entries.length - count)).Sublist r.entries :=
      List.drop_sublist (r.entries.length - count) r.entries
    have hstart : (UInt32.ofInt ((r.entries.length : Int) - ((count : Int) + 1) + 1)).toNat = r.entries.length - count := by
      rw [show (r.entries.length : Int) - ((count : Int) + 1) + 1 = ((r.entries.length - count : Nat) : Int) by omega]
      exact toNat_ofInt_of_lt (by omega)
    have hlast : (UInt32.ofInt ((r.entries.length : Int) - r.entries.length + 1)).toNat = 1 := by
      rw [Int.sub_self]
      rfl
    obtain ⟨z', hrun, hz'⟩ := h.deleteByRank_spec hlen ((r.entries.length : Int) - ((count : Int) + 1) + 1)
      ((r.entries.length : Int) - r.entries.length + 1) (a := 0) (b := r.entries.length - count)
      (by rw [hstart, hlast]; omega) (by rw [hstart, hlast]; omega) hsub
    refine ⟨z', ?_, hz'⟩
    rw [if_neg (by omega), hrun, List.drop_zero, List.length_take, Nat.min_eq_left (Nat.sub_le _ _)]

/-! ### Ranges and ranks -/

/-- Ranks below 1 are taken for 1. -/
def clamp (k : Int) : Nat := (max k 1).toNat

omit [LinearOrder α] [Zero α] in
theorem toNat_ofInt_clamp {k : Int} (h : k < 0x8000000000000000) :
    (UInt64.ofInt (if k < 1 then 1 else k)).toNat = clamp k := by
  rw [UInt64.ofInt, UInt64.toNat_ofNat', clamp]
  split <;> omega

/-- The ranks are integers of Lua, and their number is an `int` of C. -/
def RangeOk (r : Ranking α) (r1 r2 : Int) : Prop :=
  r1 < 0x8000000000000000 ∧ r2 < 0x8000000000000000 ∧ RanksOk r.entries (clamp r1) (clamp r2)

instance (r : Ranking α) (r1 r2 : Int) : Decidable (RangeOk r r1 r2) := inferInstanceAs (Decidable (_ ∧ _))

theorem Represents.range_spec (h : Represents z r) (hlen : r.entries.length < 0x100000000) {r1 r2 : Int}
    (hok : RangeOk r r1 r2) : z.range r1 r2 = some (r.range (clamp r1) (clamp r2)) := by
  obtain ⟨h1, h2, hranks⟩ := hok
  rw [← toNat_ofInt_clamp h1, ← toNat_ofInt_clamp h2] at hranks ⊢
  exact h.holds.getRankRange_spec hlen hranks

theorem Represents.revRange_spec (h : Represents z r) (hlen : r.entries.length < 0x100000000) {r1 r2 : Int}
    (hok : RangeOk r (r.reverseRank r1) (r.reverseRank r2)) :
    z.revRange r1 r2 = some (r.range (clamp (r.reverseRank r1)) (clamp (r.reverseRank r2))) := by
  rw [← h.range_spec hlen hok, Zset.revRange, Zset.reverseRank, Zset.reverseRank, h.holds.length_eq]
  rfl

theorem Represents.rank_spec (h : Represents z r) (hlen : r.entries.length < 0x100000000) (member : Obj) :
    z.rank member = some ((r.rank member).map Nat.cast) := by
  rw [Zset.rank]
  cases hold : z.tbl member with
  | none => rw [Ranking.rank_eq_none (h.notMem hold)]; rfl
  | some score =>
    have hmem := (h.tbl member score).mp hold
    have hrank := h.holds.getRank_spec (h.holds.short _ hmem) hlen (Ranking.rankOk_of_mem hmem)
    have hrank : getRank z.sl score member = _ := hrank
    simp only [hrank, Option.map_some, Ranking.rankOf_eq_rank hmem]
    rfl

/-! ### Runs of a zset -/

end

/-- The operations of a zset. -/
inductive ZsetCall (α : Type) where
  | add (draws : List Nat) (score : α) (member : Obj)
  | rem (member : Obj)
  | count
  | limit (count : Nat)
  | revLimit (count : Nat)
  | range (r1 r2 : Int)
  | revRange (r1 r2 : Int)
  | rank (member : Obj)
  | revRank (member : Obj)
  | rangeByScore (s1 s2 : α)
  | score (member : Obj)

/-- What they return. -/
inductive ZsetAnswer (α : Type) where
  | nothing
  | number (n : Int)
  | members (members : List Obj)
  | rank (rank : Option Int)
  | score (score : Option α)
deriving DecidableEq

section

variable [LinearOrder α]

def zsetCall (z : Zset α) : ZsetCall α → Option (ZsetAnswer α × Zset α)
  | .add draws score member => (z.add draws score member).map fun z => (.nothing, z)
  | .rem member => (z.rem member).map fun z => (.nothing, z)
  | .count => some (.number z.sl.length, z)
  | .limit count => (z.limit count).map fun (n, z) => (.number n, z)
  | .revLimit count => (z.revLimit count).map fun (n, z) => (.number n, z)
  | .range r1 r2 => (z.range r1 r2).map fun members => (.members members, z)
  | .revRange r1 r2 => (z.revRange r1 r2).map fun members => (.members members, z)
  | .rank member => (z.rank member).map fun rank => (.rank rank, z)
  | .revRank member => (z.revRank member).map fun rank => (.rank rank, z)
  | .rangeByScore s1 s2 => (getScoreRange z.sl s1 s2).map fun members => (.members members, z)
  | .score member => some (.score (z.tbl member), z)

/-- The same operation on the ranking. -/
def rankingCall (r : Ranking α) : ZsetCall α → ZsetAnswer α × Ranking α
  | .add _ score member => (.nothing, r.add score member)
  | .rem member => (.nothing, r.rem member)
  | .count => (.number r.entries.length, r)
  | .limit count => (.number ((r.entries.length - count : Nat) : Int), r.first count)
  | .revLimit count => (.number ((r.entries.length - count : Nat) : Int), r.after (r.entries.length - count))
  | .range r1 r2 => (.members (r.range (clamp r1) (clamp r2)), r)
  | .revRange r1 r2 => (.members (r.range (clamp (r.reverseRank r1)) (clamp (r.reverseRank r2))), r)
  | .rank member => (.rank ((r.rank member).map Nat.cast), r)
  | .revRank member => (.rank ((r.rank member).map fun k : Nat => r.reverseRank k), r)
  | .rangeByScore s1 s2 => (.members (scoreRange r.entries s1 s2), r)
  | .score member => (.score (r.score member), r)

/-- The members are short, the ranks fit into a span, and the ranges are ranges of an `int`. -/
def ZsetCall.Ok (r : Ranking α) : ZsetCall α → Prop
  | .add _ _ member => Short member
  | .limit _ => r.entries.length < 0x100000000
  | .revLimit _ => r.entries.length < 0x100000000
  | .range r1 r2 => r.entries.length < 0x100000000 ∧ RangeOk r r1 r2
  | .revRange r1 r2 => r.entries.length < 0x100000000 ∧ RangeOk r (r.reverseRank r1) (r.reverseRank r2)
  | .rank _ => r.entries.length < 0x100000000
  | .revRank _ => r.entries.length < 0x100000000
  | _ => True

instance (r : Ranking α) : (c : ZsetCall α) → Decidable (c.Ok r)
  | .add _ _ member => inferInstanceAs (Decidable (Short member))
  | .rem _ => inferInstanceAs (Decidable True)
  | .count => inferInstanceAs (Decidable True)
  | .limit _ => inferInstanceAs (Decidable (_ < _))
  | .revLimit _ => inferInstanceAs (Decidable (_ < _))
  | .range _ _ => inferInstanceAs (Decidable (_ ∧ _))
  | .revRange _ _ => inferInstanceAs (Decidable (_ ∧ _))
  | .rank _ => inferInstanceAs (Decidable (_ < _))
  | .revRank _ => inferInstanceAs (Decidable (_ < _))
  | .rangeByScore _ _ => inferInstanceAs (Decidable True)
  | .score _ => inferInstanceAs (Decidable True)

variable [Zero α]

theorem zsetCall_simulates : Simulates (zsetCall (α := α)) rankingCall (fun r c => c.Ok r) Represents := by
  intro z r c h hok
  cases c with
  | add draws score member =>
    obtain ⟨z', hrun, h'⟩ := h.add_spec draws score hok
    exact ⟨z', congrArg (Option.map _) hrun, h'⟩
  | rem member =>
    obtain ⟨z', hrun, h'⟩ := h.rem_spec member
    exact ⟨z', congrArg (Option.map _) hrun, h'⟩
  | count => exact ⟨z, by rw [zsetCall, rankingCall, h.holds.length_eq], h⟩
  | limit count =>
    obtain ⟨z', hrun, h'⟩ := h.limit_spec hok count
    exact ⟨z', congrArg (Option.map _) hrun, h'⟩
  | revLimit count =>
    obtain ⟨z', hrun, h'⟩ := h.revLimit_spec hok count
    exact ⟨z', congrArg (Option.map _) hrun, h'⟩
  | range r1 r2 => exact ⟨z, congrArg (Option.map _) (h.range_spec hok.1 hok.2), h⟩
  | revRange r1 r2 => exact ⟨z, congrArg (Option.map _) (h.revRange_spec hok.1 hok.2), h⟩
  | rank member => exact ⟨z, congrArg (Option.map _) (h.rank_spec hok member), h⟩
  | revRank member =>
    have hreverse : z.reverseRank = r.reverseRank := by
      funext k
      rw [Zset.reverseRank, Ranking.reverseRank, h.holds.length_eq]
    refine ⟨z, ?_, h⟩
    rw [zsetCall, Zset.revRank, h.rank_spec hok member, rankingCall, Option.map_some, Option.map_some, Option.map_map,
      hreverse]
    rfl
  | rangeByScore s1 s2 => exact ⟨z, congrArg (Option.map _) (h.holds.getScoreRange_spec s1 s2), h⟩
  | score member => exact ⟨z, by rw [zsetCall, rankingCall, h.tbl_eq_score], h⟩

/-- **A zset is a ranking.** Every run of its operations from an empty one returns what the ranking of its members returns,
and leaves the skip list and the table in step with it. -/
theorem trace_zsetCall_eq (calls : List (ZsetCall α)) (hok : Allowed rankingCall (fun r c => c.Ok r) Ranking.empty calls) :
    ∃ z' : Zset α, trace zsetCall Zset.new calls = some ((answers rankingCall Ranking.empty calls).1, z') ∧
      Represents z' (answers rankingCall Ranking.empty calls).2 :=
  zsetCall_simulates.trace_eq represents_new hok

theorem trace_zsetCall_eq_three : ∃ z' : Zset Int,
    trace zsetCall Zset.new [.add [] 7 [97], .add [0] 3 [98], .add [] 9 [98], .revRange 1 5, .rank [98], .revLimit 1] =
      some ([.nothing, .nothing, .nothing, .members [[98], [97]], .rank (some 2), .number 1], z') ∧
      Represents z' (((Ranking.empty.add 7 [97]).add 3 [98]).add 9 [98] |>.after 1) :=
  trace_zsetCall_eq _ (by decide)

/-! ### Past the ends -/

variable {z : Zset α} {r : Ranking α}

omit [Zero α] in
theorem Ranking.range_reverseRank (r : Ranking α) {r1 r2 : Nat} (h1 : 0 < r1) (hle : r1 ≤ r2) :
    r.range (clamp (r.reverseRank r1)) (clamp (r.reverseRank r2)) =
      if r1 ≤ r.entries.length then ((r.entries.reverse.take r2).drop (r1 - 1)).map Entry.obj
      else (r.entries.take 1).map Entry.obj := by
  by_cases hin : r1 ≤ r.entries.length
  · have hfirst : clamp (r.reverseRank r1) = r.entries.length - r1 + 1 := by
      unfold clamp Ranking.reverseRank
      omega
    have hlast : clamp (r.reverseRank r2) - 1 = r.entries.length - r2 := by
      unfold clamp Ranking.reverseRank
      omega
    have hread : (((r.entries.take (r.entries.length - r1 + 1)).drop (r.entries.length - r2)).reverse).map Entry.obj =
        ((r.entries.reverse.take r2).drop (r1 - 1)).map Entry.obj := by
      rw [List.take_reverse, List.drop_reverse, List.length_drop, List.drop_take]
      exact congrArg (fun n => (List.reverse (List.take n _)).map Entry.obj) (by omega)
    rw [if_pos hin, hfirst, Ranking.range, rankRange, if_neg (by omega), hlast, ← hread]
    by_cases hsame : r.entries.length - r1 + 1 ≤ clamp (r.reverseRank r2)
    · -- both ends are the same rank, and a range of one member is its own reverse
      have hone : r.entries.length - r2 = r.entries.length - r1 := by omega
      have heq : clamp (r.reverseRank r2) = r.entries.length - r1 + 1 := by omega
      rw [if_pos hsame, heq, hone, Nat.add_sub_cancel, List.drop_take, Nat.add_sub_cancel_left]
      cases r.entries.drop (r.entries.length - r1) with
      | nil => rfl
      | cons e rest => rfl
    · rw [if_neg hsame]
  · have hfirst : clamp (r.reverseRank r1) = 1 := by
      unfold clamp Ranking.reverseRank
      omega
    have hlast : clamp (r.reverseRank r2) = 1 := by
      unfold clamp Ranking.reverseRank
      omega
    rw [if_neg hin, hfirst, hlast, Ranking.range, rankRange]
    cases r.entries with
    | nil => rfl
    | cons e rest => simp

/-- `limit` with a negative count: the first rank becomes an `unsigned int` larger than the number of members, the two ranks
are exchanged, and only the last member goes. -/
theorem Represents.limit_negative (h : Represents z r) (hpos : 0 < r.entries.length) (hlen : r.entries.length < 0x80000000)
    {count : Int} (hneg : count < -1) (hcount : -0x80000000 ≤ count) :
    ∃ z', z.limit count = some (1, z') ∧ Represents z' (r.first (r.entries.length - 1)) := by
  have hstart : (UInt32.ofInt (count + 1)).toNat = (0x100000000 + count + 1).toNat := by
    rw [UInt32.ofInt, UInt32.toNat_ofNat']
    omega
  have hlast : (UInt32.ofInt (r.entries.length : Int)).toNat = r.entries.length := toNat_ofInt_of_lt (by omega)
  have hdrop : r.entries.drop (0x100000000 + count + 1).toNat = [] := List.drop_eq_nil_of_le (by omega)
  have hsub : (r.entries.take (r.entries.length - 1) ++ r.entries.drop (0x100000000 + count + 1).toNat).Sublist
      r.entries := by
    rw [hdrop, List.append_nil]
    exact List.take_sublist _ r.entries
  obtain ⟨z', hrun, hz'⟩ := h.deleteByRank_spec (by omega) (count + 1) r.entries.length (a := r.entries.length - 1)
    (b := (0x100000000 + count + 1).toNat) (by rw [hstart, hlast]; omega) (by rw [hstart, hlast]; omega) hsub
  have hentries : (r.sub hsub).entries = (r.first (r.entries.length - 1)).entries := by
    show _ ++ _ = _
    rw [hdrop, List.append_nil]
    rfl
  refine ⟨z', ?_, by rw [← hentries]; exact hz'.holds, fun m s => by rw [← hentries]; exact hz'.tbl m s⟩
  rw [Zset.limit, h.holds.length_eq, if_neg (by omega), hrun, List.take_of_length_le (by omega), List.length_drop,
    Nat.sub_sub_self hpos]
  rfl

theorem exists_represents {calls : List (ZsetCall α)} (hok : Allowed rankingCall (fun r c => c.Ok r) Ranking.empty calls)
    {given : List (ZsetAnswer α)} (hrun : trace zsetCall Zset.new calls = some (given, z)) :
    Represents z (answers rankingCall Ranking.empty calls).2 := by
  obtain ⟨z', htrace, h⟩ := zsetCall_simulates.trace_eq represents_new hok
  obtain rfl : z' = z := congrArg Prod.snd (Option.some.inj (htrace.symm.trans hrun))
  exact h

/-- **Reading from the top.** After every run, `rev_range` returns the members from the `r1`-th last on downwards; asked for
places that do not exist it returns the lowest member instead of nothing. -/
theorem revRange_eq (calls : List (ZsetCall α)) (hok : Allowed rankingCall (fun r c => c.Ok r) Ranking.empty calls)
    {given : List (ZsetAnswer α)} (hrun : trace zsetCall Zset.new calls = some (given, z)) (hlen : z.sl.length < 0x7fffffff)
    (r1 r2 : Nat) (h1 : 0 < r1) (hle : r1 ≤ r2) :
    let entries := (answers rankingCall Ranking.empty calls).2.entries
    z.revRange r1 r2 = some (if r1 ≤ entries.length then ((entries.reverse.take r2).drop (r1 - 1)).map Entry.obj
      else (entries.take 1).map Entry.obj) := by
  have h := exists_represents hok hrun
  rw [h.holds.length_eq] at hlen
  intro entries
  rw [h.revRange_spec (by omega), Ranking.range_reverseRank _ h1 hle]
  unfold RangeOk RanksOk clamp Ranking.reverseRank
  omega

theorem revRange_eq_past : ∃ (given : List (ZsetAnswer Int)) (z : Zset Int),
    trace zsetCall Zset.new [.add [] 7 [97]] = some (given, z) ∧ z.revRange 2 3 = some [[97]] :=
  ⟨_, _, rfl, revRange_eq [.add [] 7 [97]] (by decide) rfl (by decide) 2 3 (by decide) (by decide)⟩

/-- **Negative counts.** After every run, `limit` with a count below -1 removes only the last member, where with the count
-1 it removes them all. -/
theorem limit_negative_eq (calls : List (ZsetCall α)) (hok : Allowed rankingCall (fun r c => c.Ok r) Ranking.empty calls)
    {given : List (ZsetAnswer α)} (hrun : trace zsetCall Zset.new calls = some (given, z)) (hpos : 0 < z.sl.length)
    (hlen : z.sl.length < 0x80000000) (count : Int) (hneg : count < 0) (hcount : -0x80000000 ≤ count) :
    let r := (answers rankingCall Ranking.empty calls).2
    ∃ z', z.limit count = some (if count = -1 then (r.entries.length : Int) else 1, z') ∧
      Represents z' (r.first (if count = -1 then 0 else r.entries.length - 1)) := by
  intro r
  have h : Represents z r := exists_represents hok hrun
  rw [h.holds.length_eq] at hpos hlen
  by_cases hone : count = -1
  · subst hone
    have hsub : (r.entries.take 0 ++ r.entries.drop r.entries.length).Sublist r.entries := by simp
    have hlast : (UInt32.ofInt (r.entries.length : Int)).toNat = r.entries.length := toNat_ofInt_of_lt (by omega)
    obtain ⟨z', hrun', hz'⟩ := h.deleteByRank_spec (by omega) (-1 + 1) r.entries.length (a := 0) (b := r.entries.length)
      (by rw [hlast]; rfl) (by rw [hlast]; exact Nat.max_eq_right (Nat.zero_le _)) hsub
    have hentries : (r.sub hsub).entries = (r.first 0).entries := by
      show _ ++ _ = _
      rw [List.drop_length]
      rfl
    refine ⟨z', ?_, by rw [if_pos rfl, ← hentries]; exact hz'.holds, fun m s => by
      rw [if_pos rfl, ← hentries]; exact hz'.tbl m s⟩
    rw [Zset.limit, h.holds.length_eq, if_neg (by omega), hrun', List.take_length, List.drop_zero, if_pos rfl]
  · rw [if_neg hone, if_neg hone]
    exact h.limit_negative hpos hlen (by omega) hcount

theorem limit_negative_eq_two : ∃ (given : List (ZsetAnswer Int)) (z : Zset Int),
    trace zsetCall Zset.new [.add [] 7 [97], .add [] 9 [98]] = some (given, z) ∧
      ∃ z', z.limit (-2) = some (1, z') ∧ Represents z' ((Ranking.empty.add 7 [97]).add 9 [98] |>.first 1) :=
  ⟨_, _, rfl, limit_negative_eq [.add [] 7 [97], .add [] 9 [98]] (by decide) rfl (by decide) (by decide) (-2) (by decide)
    (by decide)⟩

end

end SkynetServer.Sl
