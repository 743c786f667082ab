import Mathlib.Data.List.Nodup
import Mathlib.Logic.Function.Basic
import SkynetServer.Lib.ArrayField

/-!
# Learning results

The `ResultInfo` collection has one document for each account, with the array of the records of the modules. The agent
keeps the whole list in memory and saves all of it: `saveResultInfo` goes through the list and for each record either
appends it or overwrites the element that the database reports. What is loaded afterwards is the saved list together with
the stored records of other modules exactly when no record meets, among those stored and those saved before it, records
that share its grade, its term, its unit and its module between them but not each of them all four.
-/

namespace SkynetServer.Database

open Lib.ArrayField

/-- The key of a record; `moudleId` counts tenths. -/
@[ext]
structure MoudleBase where
  grade : Int
  term : Int
  unit : Int
  moudleId : Int
deriving DecidableEq

/-- The scores are the entries of the table `score`. -/
structure Record where
  moudleBase : MoudleBase
  order : Int
  score : List (Int × Int)
deriving DecidableEq

/-- The conditions of `saveResultInfo`. -/
def recordFields : List (Record → Int) :=
  [fun r => r.moudleBase.grade, fun r => r.moudleBase.term, fun r => r.moudleBase.unit, fun r => r.moudleBase.moudleId]

/-- The collection: the array of the document of each account, if it has one. -/
abbrev ResultCollection (Account : Type) := Account → Option (List Record)

variable {Account : Type} [DecidableEq Account]

omit [DecidableEq Account] in
def getResultInfo (db : ResultCollection Account) (account : Account) : List Record := (db account).getD []

/-- One turn of the loop of `saveResultInfo`. `$push` with the upsert flag makes the document; `index` is what `Record.$`
stands for. -/
def saveRecord (index : Nat) (db : ResultCollection Account) (account : Account) (args : Record) :
    ResultCollection Account :=
  match db account with
  | none => Function.update db account (some [args])
  | some arr =>
    if Matched recordFields arr args then Function.update db account (some (arr.set index args))
    else Function.update db account (some (arr ++ [args]))

/-- `saveResultInfo`, for the records in the order in which `pairs` visits them, whatever element the database reports
each time. -/
inductive SaveResultInfo (account : Account) :
    ResultCollection Account → List Record → ResultCollection Account → Prop where
  | nil (db : ResultCollection Account) : SaveResultInfo account db [] db
  | cons {db db' : ResultCollection Account} {args : Record} {info : List Record} {index : Nat}
      (hindex : Resolves recordFields (getResultInfo db account) args index)
      (hrest : SaveResultInfo account (saveRecord index db account args) info db') :
      SaveResultInfo account db (args :: info) db'

theorem getResultInfo_saveRecord (index : Nat) (db : ResultCollection Account) (account : Account) (args : Record) :
    getResultInfo (saveRecord index db account args) account =
      save recordFields index (getResultInfo db account) args := by
  unfold saveRecord getResultInfo save
  cases hdoc : db account with
  | none =>
    have hnot : ¬ Matched recordFields [] args := fun h => by
      simpa using h (fun r => r.moudleBase.grade) (by simp [recordFields])
    simp [hnot]
  | some arr =>
    by_cases hmatched : Matched recordFields arr args <;> simp [hmatched]

theorem SaveResultInfo.saves {account : Account} {db db' : ResultCollection Account} {info : List Record}
    (h : SaveResultInfo account db info db') :
    Saves recordFields (getResultInfo db account) info (getResultInfo db' account) := by
  induction h with
  | nil db => exact .nil _
  | cons hindex hrest ih =>
    rw [getResultInfo_saveRecord] at ih
    exact .cons hindex ih

theorem exists_saveResultInfo {account : Account} {db : ResultCollection Account} {info arr : List Record}
    (h : Saves recordFields (getResultInfo db account) info arr) :
    ∃ db', SaveResultInfo account db info db' ∧ getResultInfo db' account = arr := by
  generalize hstored : getResultInfo db account = stored at h
  induction h generalizing db with
  | nil stored => exact ⟨db, .nil db, hstored⟩
  | @cons stored info arr args index hindex hrest ih =>
    subst hstored
    obtain ⟨db', hrun, harr⟩ := ih (getResultInfo_saveRecord index db account args)
    exact ⟨db', .cons hindex hrun, harr⟩

/-! ### Module keys -/

theorem sameKey_recordFields {a b : Record} : SameKey recordFields a b ↔ a.moudleBase = b.moudleBase := by
  constructor
  · intro h
    have hgrade := h (fun r => r.moudleBase.grade) (by simp [recordFields])
    have hterm := h (fun r => r.moudleBase.term) (by simp [recordFields])
    have hunit := h (fun r => r.moudleBase.unit) (by simp [recordFields])
    have hmoudleId := h (fun r => r.moudleBase.moudleId) (by simp [recordFields])
    exact MoudleBase.ext hgrade hterm hunit hmoudleId
  · intro h f hf
    simp only [recordFields, List.mem_cons, List.not_mem_nil, or_false] at hf
    rcases hf with rfl | rfl | rfl | rfl <;> simp [h]

theorem distinct_recordFields {arr : List Record} :
    Distinct recordFields arr ↔ (arr.map Record.moudleBase).Nodup := by
  simp only [Distinct, sameKey_recordFields, List.Nodup, List.pairwise_map, Ne]

theorem hasKey_recordFields {arr : List Record} {r : Record} :
    HasKey recordFields arr r ↔ r.moudleBase ∈ arr.map Record.moudleBase := by
  simp only [HasKey, sameKey_recordFields, List.mem_map]

/-- Each saved record as given and once, each stored record of another module, and nothing else. -/
def ResultsKept (stored info arr : List Record) : Prop :=
  arr.Nodup ∧ ∀ r, r ∈ arr ↔ r ∈ info ∨ (r ∈ stored ∧ ∀ args ∈ info, args.moudleBase ≠ r.moudleBase)

theorem ResultsKept.keys {stored info arr : List Record} (h : ResultsKept stored info arr)
    (hstored : (stored.map Record.moudleBase).Nodup) (hinfo : (info.map Record.moudleBase).Nodup) :
    Distinct recordFields arr ∧
      ∀ r, (HasKey recordFields stored r ∨ HasKey recordFields info r) ↔ HasKey recordFields arr r := by
  obtain ⟨hnodup, hmem⟩ := h
  have hinj : ∀ a ∈ arr, ∀ b ∈ arr, a.moudleBase = b.moudleBase → a = b := by
    intro a ha b hb hab
    rcases (hmem a).mp ha with ha | ⟨ha, hnone⟩
    · rcases (hmem b).mp hb with hb | ⟨-, hnone⟩
      · exact List.inj_on_of_nodup_map hinfo ha hb hab
      · exact absurd hab (hnone a ha)
    · rcases (hmem b).mp hb with hb | ⟨hb, -⟩
      · exact absurd hab.symm (hnone b hb)
      · exact List.inj_on_of_nodup_map hstored ha hb hab
  refine ⟨distinct_recordFields.mpr (hnodup.map_on hinj), fun r => ?_⟩
  simp only [hasKey_recordFields, List.mem_map]
  constructor
  · rintro (⟨a, ha, hkey⟩ | ⟨a, ha, hkey⟩)
    · by_cases hsaved : ∃ args ∈ info, args.moudleBase = a.moudleBase
      · obtain ⟨args, hargs, heq⟩ := hsaved
        exact ⟨args, (hmem args).mpr (.inl hargs), heq.trans hkey⟩
      · refine ⟨a, (hmem a).mpr (.inr ⟨ha, fun args hargs heq => ?_⟩), hkey⟩
        exact hsaved ⟨args, hargs, heq⟩
    · exact ⟨a, (hmem a).mpr (.inl ha), hkey⟩
  · rintro ⟨a, ha, hkey⟩
    rcases (hmem a).mp ha with ha | ⟨ha, -⟩
    · exact .inr ⟨a, ha, hkey⟩
    · exact .inl ⟨a, ha, hkey⟩

theorem resultsKept_of_clearAll {account : Account} {db db' : ResultCollection Account} {info : List Record}
    (hstored : ((getResultInfo db account).map Record.moudleBase).Nodup)
    (hinfo : (info.map Record.moudleBase).Nodup)
    (hclear : ClearAll recordFields (getResultInfo db account) info) (h : SaveResultInfo account db info db') :
    ResultsKept (getResultInfo db account) info (getResultInfo db' account) := by
  obtain ⟨hdistinct, hmem⟩ :=
    h.saves.of_clearAll (distinct_recordFields.mpr hstored) (distinct_recordFields.mpr hinfo) hclear
  refine ⟨(distinct_recordFields.mp hdistinct).of_map, fun r => ?_⟩
  rw [hmem, hasKey_recordFields, List.mem_map]
  simp only [not_exists, not_and, Ne]

/-- **Learning results survive.** For every account, all stored records with distinct modules and every list of records with
distinct modules: whatever elements the database reports, the list that is loaded after the save is the saved one with the
stored records of other modules exactly when every record is clear of those stored and of those saved before it. -/
theorem results_kept_iff_clear (db : ResultCollection Account) (account : Account) (info : List Record)
    (hstored : ((getResultInfo db account).map Record.moudleBase).Nodup)
    (hinfo : (info.map Record.moudleBase).Nodup) :
    (∀ db', SaveResultInfo account db info db' →
        ResultsKept (getResultInfo db account) info (getResultInfo db' account)) ↔
      ClearAll recordFields (getResultInfo db account) info := by
  refine ⟨fun hkept => ?_, fun hclear db' h => resultsKept_of_clearAll hstored hinfo hclear h⟩
  have hall : ∀ arr, Saves recordFields (getResultInfo db account) info arr → Distinct recordFields arr ∧
      ∀ r, (HasKey recordFields (getResultInfo db account) r ∨ HasKey recordFields info r) ↔
        HasKey recordFields arr r := by
    intro arr hsaves
    obtain ⟨db', hrun, rfl⟩ := exists_saveResultInfo hsaves
    exact (hkept db' hrun).keys hstored hinfo
  exact (clearAll_of_saves (by simp [recordFields]) hall).2.2

/-- A stored record is saved with a new score, together with the first one of another grade. -/
theorem results_kept_iff_clear_two_records :
    ClearAll recordFields [⟨⟨3, 1, 1, 11⟩, 1, [(1, 60)]⟩]
        [⟨⟨3, 1, 1, 11⟩, 2, [(1, 60), (2, 90)]⟩, ⟨⟨4, 2, 2, 21⟩, 1, [(1, 75)]⟩] ∧
      ∀ db', SaveResultInfo 7 (fun _ : Nat => some [⟨⟨3, 1, 1, 11⟩, 1, [(1, 60)]⟩])
          [⟨⟨3, 1, 1, 11⟩, 2, [(1, 60), (2, 90)]⟩, ⟨⟨4, 2, 2, 21⟩, 1, [(1, 75)]⟩] db' →
        ResultsKept [⟨⟨3, 1, 1, 11⟩, 1, [(1, 60)]⟩]
          [⟨⟨3, 1, 1, 11⟩, 2, [(1, 60), (2, 90)]⟩, ⟨⟨4, 2, 2, 21⟩, 1, [(1, 75)]⟩] (getResultInfo db' 7) :=
  ⟨by decide, (results_kept_iff_clear (fun _ : Nat => some [⟨⟨3, 1, 1, 11⟩, 1, [(1, 60)]⟩]) 7
    [⟨⟨3, 1, 1, 11⟩, 2, [(1, 60), (2, 90)]⟩, ⟨⟨4, 2, 2, 21⟩, 1, [(1, 75)]⟩] (by decide) (by decide)).mpr (by decide)⟩

/-- A new record whose unit is that of one stored record and whose module is that of another takes the place of the
first. -/
theorem not_resultsKept_between :
    ¬ ∀ (db : ResultCollection Nat) (account : Nat) (info : List Record),
      ((getResultInfo db account).map Record.moudleBase).Nodup → (info.map Record.moudleBase).Nodup →
        ∀ db', SaveResultInfo account db info db' →
          ResultsKept (getResultInfo db account) info (getResultInfo db' account) := by
  intro hall
  have hfirst : Resolves recordFields [⟨⟨3, 1, 1, 11⟩, 1, [(1, 60)]⟩, ⟨⟨3, 1, 2, 12⟩, 1, [(1, 90)]⟩]
      ⟨⟨3, 1, 1, 12⟩, 1, [(1, 75)]⟩ 0 := fun _ => ⟨_, rfl, by decide⟩
  have hkept := hall (fun _ => some [⟨⟨3, 1, 1, 11⟩, 1, [(1, 60)]⟩, ⟨⟨3, 1, 2, 12⟩, 1, [(1, 90)]⟩]) 7
    [⟨⟨3, 1, 1, 12⟩, 1, [(1, 75)]⟩] (by decide) (by decide) _ (.cons hfirst (.nil _))
  have hlost := (hkept.2 ⟨⟨3, 1, 1, 11⟩, 1, [(1, 60)]⟩).mpr (.inr (by decide))
  exact absurd hlost (by decide)

/-! ### The list of the agent -/

/-- The arguments of `SendLearnResultInfo`. -/
structure LearnResult where
  moudleBase : MoudleBase
  order : Int
  score : Int
deriving DecidableEq

/-- `v.order = args.order`, `v.score[args.order] = args.score`. -/
def Record.update (v : Record) (args : LearnResult) : Record :=
  { v with
    order := args.order
    score := (args.order, args.score) :: v.score.filter fun entry => entry.1 ≠ args.order }

/-- The `saveResultInfo` of the agent, which only changes the list in memory. -/
def recordSaveResultInfo (info : List Record) (args : LearnResult) : List Record :=
  if args.moudleBase ∈ info.map Record.moudleBase then
    info.map fun v => if v.moudleBase = args.moudleBase then v.update args else v
  else info ++ [⟨args.moudleBase, args.order, [(1, args.score)]⟩]

/-- The modules of the list stay distinct, whatever results the client sends. -/
theorem nodup_recordSaveResultInfo {info : List Record} (h : (info.map Record.moudleBase).Nodup)
    (results : List LearnResult) : ((results.foldl recordSaveResultInfo info).map Record.moudleBase).Nodup := by
  induction results generalizing info with
  | nil => exact h
  | cons args results ih =>
    refine ih ?_
    unfold recordSaveResultInfo
    split
    · have hkeys : (info.map fun v => if v.moudleBase = args.moudleBase then v.update args else v).map
          Record.moudleBase = info.map Record.moudleBase := by
        rw [List.map_map]
        refine List.map_congr_left fun v _ => ?_
        simp only [Function.comp_apply]
        split <;> rfl
      rw [hkeys]
      exact h
    · rename_i hnew
      rw [List.map_append]
      exact List.nodup_append'.mpr ⟨h, List.nodup_singleton _, by simpa using hnew⟩

end SkynetServer.Database
