import SkynetServer.Database.ResultInfo
import SkynetServer.Lib.Run

/-!
# Recorded results

`record.lua` keeps the learning results of the user in the list `info`. A request that is accepted either changes the
record of its module or adds one. A record that is changed gets the score under the order of the request; a new record
gets it as the first entry of its table, whatever the order was. What `GetResultInfo` returns afterwards is what was sent
exactly when each new module starts with order 1, or sends both its first order and order 1 again.
-/

namespace SkynetServer.Recording

open Lib Database

/-- The `moudleBase` of a request, with `none` for a field that is not there. -/
structure BaseArgs where
  grade : Option Int
  term : Option Int
  unit : Option Int
  moudleId : Option Int
deriving DecidableEq

/-- The four fields, if they are all there. -/
def BaseArgs.moudleBase (args : BaseArgs) : Option MoudleBase :=
  match args.grade, args.term, args.unit, args.moudleId with
  | some grade, some term, some unit, some moudleId => some ⟨grade, term, unit, moudleId⟩
  | _, _, _, _ => none

structure SendArgs where
  moudleBase : Option BaseArgs
  order : Option Int
  score : Option Int
deriving DecidableEq

structure MInfo where
  moudleBase : MoudleBase
  order : Option Int
  score : List (Int × Int)
deriving DecidableEq

/-- The arguments with all fields of a module. -/
def argsOf (base : MoudleBase) : BaseArgs :=
  ⟨some base.grade, some base.term, some base.unit, some base.moudleId⟩

@[simp] theorem moudleBase_argsOf (base : MoudleBase) : (argsOf base).moudleBase = some base := rfl

-- `user.CMD.GetTabId`, which looks the module up in the tables of the lessons
variable {TabId : Type} (getTabId : MoudleBase → Option TabId)

/-- `RPC.SendLearnResultInfo`: the list behind the request and the `status`, if there is an answer. -/
def sendLearnResultInfo (info : List Record) (args : SendArgs) : Except String (List Record × Option Bool) :=
  match args.moudleBase.bind BaseArgs.moudleBase with
  | none => .ok (info, none)
  | some base =>
    match getTabId base with
    | none => .error "id not exist"
    | some _ =>
      match args.order with
      | none => .ok (info, none)
      | some order =>
        match args.score with
        | none => .ok (info, none)
        | some score =>
          if score < 0 ∨ score > 100 then .ok (info, none)
          else .ok (recordSaveResultInfo info ⟨base, order, score⟩, some true)

/-- `RPC.GetResultInfo`. -/
def getResultInfo (info : List Record) (moudleBase : Option BaseArgs) : Except String (Option MInfo) :=
  match moudleBase.bind BaseArgs.moudleBase with
  | none => .ok none
  | some base =>
    match getTabId base with
    | none => .error "id not exist"
    | some _ =>
      match info.find? fun v => v.moudleBase = base with
      | some v => .ok (some ⟨base, some v.order, v.score⟩)
      | none => .ok (some ⟨base, none, []⟩)

/-- A request that is accepted. -/
def accept (info : List Record) (args : SendArgs) : Option (List Record) :=
  match sendLearnResultInfo getTabId info args with
  | .ok (info', some true) => some info'
  | _ => none

/-! ### What should be read back -/

/-- The orders and scores that the requests hold for a module, in their order. -/
def sent (requests : List SendArgs) (base : MoudleBase) : List (Int × Int) :=
  requests.filterMap fun args =>
    if args.moudleBase.bind BaseArgs.moudleBase = some base then
      match args.order, args.score with
      | some order, some score => some (order, score)
      | _, _ => none
    else none

def lastScore (entries : List (Int × Int)) (order : Int) : Option Int :=
  (entries.filter fun entry => entry.1 = order).getLast?.map Prod.snd

/-- The score that the list holds for an order of a module. -/
def scoreAt (info : List Record) (base : MoudleBase) (order : Int) : Option Int :=
  (info.find? fun v => v.moudleBase = base).bind fun v => v.score.lookup order

/-- `info'` stands for `info` with the requests. -/
structure Recorded (info : List Record) (requests : List SendArgs) (info' : List Record) : Prop where
  nodup : (info'.map Record.moudleBase).Nodup
  modules : ∀ base, base ∈ info'.map Record.moudleBase ↔ base ∈ info.map Record.moudleBase ∨ sent requests base ≠ []
  reads : ∀ base, (getTabId base).isSome → ∃ reply,
    getResultInfo getTabId info' (some (argsOf base)) = .ok (some reply) ∧
      (∀ order, reply.score.lookup order = (lastScore (sent requests base) order).or (scoreAt info base order)) ∧
      ∀ last ∈ (sent requests base).getLast?, reply.order = some last.1

/-- The first order of a new module is 1, or it is sent again and so is 1. -/
def StartsAtOne : List (Int × Int) → Prop
  | [] => True
  | entry :: rest => entry.1 = 1 ∨ (1 ∈ rest.map Prod.fst ∧ entry.1 ∈ rest.map Prod.fst)

/-! ### One module -/

/-- What a request does to the record of its module. -/
def note (base : MoudleBase) (v : Option Record) (entry : Int × Int) : Option Record :=
  match v with
  | some v => some (v.update ⟨base, entry.1, entry.2⟩)
  | none => some ⟨base, entry.1, [(1, entry.2)]⟩

theorem find_eq_none_iff (info : List Record) (base : MoudleBase) :
    (info.find? fun v => v.moudleBase = base) = none ↔ base ∉ info.map Record.moudleBase := by
  simp [List.find?_eq_none]

theorem find_recordSaveResultInfo (info : List Record) (args : LearnResult) (base : MoudleBase) :
    (recordSaveResultInfo info args).find? (fun v => v.moudleBase = base) =
      if args.moudleBase = base then note base (info.find? fun v => v.moudleBase = base) (args.order, args.score)
      else info.find? fun v => v.moudleBase = base := by
  have hkey : ∀ v : Record, (if v.moudleBase = args.moudleBase then v.update args else v).moudleBase = v.moudleBase := by
    intro v
    split <;> rfl
  unfold recordSaveResultInfo
  split
  · have hfind : (info.map fun v => if v.moudleBase = args.moudleBase then v.update args else v).find?
        (fun v => v.moudleBase = base) = (info.find? fun v => v.moudleBase = base).map fun v =>
          if v.moudleBase = args.moudleBase then v.update args else v := by
      rw [List.find?_map]
      simp only [Function.comp_def, hkey]
    rw [hfind]
    rename_i hmem
    cases hold : info.find? fun v => v.moudleBase = base with
    | none =>
      have hne : args.moudleBase ≠ base := fun heq => (find_eq_none_iff info base).mp hold (heq ▸ hmem)
      rw [if_neg hne]
      rfl
    | some v =>
      have hv : v.moudleBase = base := by simpa using List.find?_some hold
      simp only [Option.map_some, hv, eq_comm (a := base)]
      split
      · rename_i heq
        subst heq
        rfl
      · rfl
  · rename_i hnew
    rw [List.find?_append]
    by_cases heq : args.moudleBase = base
    · subst heq
      rw [(find_eq_none_iff info args.moudleBase).mpr hnew, if_pos rfl, List.find?_singleton, if_pos (by simp)]
      rfl
    · rw [if_neg heq, List.find?_singleton, if_neg (by simpa using heq), Option.or_none]

theorem lookup_filter_ne {order other : Int} (hne : order ≠ other) (table : List (Int × Int)) :
    (table.filter fun entry => entry.1 ≠ other).lookup order = table.lookup order := by
  induction table with
  | nil => rfl
  | cons entry table ih =>
    obtain ⟨key, score⟩ := entry
    by_cases hkey : key = other
    · subst hkey
      rw [List.filter_cons_of_neg (by simp), ih, List.lookup_cons, beq_false_of_ne hne]
    · rw [List.filter_cons_of_pos (by simpa using hkey), List.lookup_cons, List.lookup_cons, ih]

theorem lookup_update (v : Record) (args : LearnResult) (order : Int) :
    (v.update args).score.lookup order = if order = args.order then some args.score else v.score.lookup order := by
  change List.lookup order ((args.order, args.score) :: v.score.filter fun entry => entry.1 ≠ args.order) = _
  by_cases heq : order = args.order
  · simp [heq]
  · rw [if_neg heq, ← lookup_filter_ne heq v.score, List.lookup_cons, beq_false_of_ne heq]

theorem lastScore_snoc (entries : List (Int × Int)) (entry : Int × Int) (order : Int) :
    lastScore (entries ++ [entry]) order = if order = entry.1 then some entry.2 else lastScore entries order := by
  unfold lastScore
  rw [List.filter_append, List.filter_singleton]
  by_cases heq : order = entry.1
  · simp [heq]
  · simp [heq, eq_comm (a := entry.1)]

/-- The scores of a record that is there, behind any requests for its module. -/
theorem foldl_note_some (base : MoudleBase) (v : Record) (entries : List (Int × Int)) :
    ∃ v', entries.foldl (note base) (some v) = some v' ∧
      (∀ order, v'.score.lookup order = (lastScore entries order).or (v.score.lookup order)) ∧
      (∀ last ∈ entries.getLast?, v'.order = last.1) := by
  induction entries using List.reverseRecOn with
  | nil => exact ⟨v, rfl, fun order => rfl, fun last hlast => by cases hlast⟩
  | append_singleton entries entry ih =>
    obtain ⟨v', hfold, hscore, -⟩ := ih
    refine ⟨v'.update ⟨base, entry.1, entry.2⟩, ?_, fun order => ?_, fun last hlast => ?_⟩
    · rw [List.foldl_append, hfold]
      rfl
    · rw [lookup_update, lastScore_snoc, hscore]
      split <;> rfl
    · obtain rfl : entry = last := by simpa using hlast
      rfl

/-- The scores of a module that was not there: those of its first request stand under 1. -/
theorem foldl_note_none (base : MoudleBase) (entry : Int × Int) (entries : List (Int × Int)) :
    ∃ v', (entry :: entries).foldl (note base) none = some v' ∧
      (∀ order, v'.score.lookup order = (lastScore entries order).or (if order = 1 then some entry.2 else none)) ∧
      (∀ last ∈ (entry :: entries).getLast?, v'.order = last.1) := by
  obtain ⟨v', hfold, hscore, horder⟩ := foldl_note_some base ⟨base, entry.1, [(1, entry.2)]⟩ entries
  refine ⟨v', hfold, fun order => ?_, fun last hlast => ?_⟩
  · rw [hscore, List.lookup_cons]
    by_cases hone : order = 1
    · simp [hone]
    · rw [if_neg hone, beq_false_of_ne hone]
      rfl
  · cases entries with
    | nil =>
      obtain rfl : entry = last := by simpa using hlast
      obtain rfl : (⟨base, entry.1, [(1, entry.2)]⟩ : Record) = v' := Option.some.inj hfold
      rfl
    | cons entry' entries => exact horder last (by simpa using hlast)

theorem lastScore_cons (entry : Int × Int) (entries : List (Int × Int)) (order : Int) :
    lastScore (entry :: entries) order =
      (lastScore entries order).or (if order = entry.1 then some entry.2 else none) := by
  induction entries using List.reverseRecOn with
  | nil =>
    have hsnoc := lastScore_snoc [] entry order
    simpa [lastScore] using hsnoc
  | append_singleton entries last ih =>
    rw [← List.cons_append, lastScore_snoc, lastScore_snoc, ih]
    split <;> rfl

theorem lastScore_eq_none_iff (entries : List (Int × Int)) (order : Int) :
    lastScore entries order = none ↔ order ∉ entries.map Prod.fst := by
  rw [lastScore, Option.map_eq_none_iff, List.getLast?_eq_none_iff, List.filter_eq_nil_iff, List.mem_map]
  refine ⟨?_, fun hnot entry hentry heq => hnot ⟨entry, hentry, by simpa using heq⟩⟩
  rintro hall ⟨entry, hentry, rfl⟩
  exact hall entry hentry (by simp)

theorem startsAtOne_iff (entry : Int × Int) (entries : List (Int × Int)) :
    (∀ order, (lastScore entries order).or (if order = 1 then some entry.2 else none) =
      lastScore (entry :: entries) order) ↔ StartsAtOne (entry :: entries) := by
  simp only [lastScore_cons]
  constructor
  · intro hall
    by_contra hstart
    rw [StartsAtOne, not_or, not_and_or] at hstart
    obtain ⟨hne, hmissing | hmissing⟩ := hstart
    · have hone := hall 1
      rw [(lastScore_eq_none_iff entries 1).mpr hmissing, if_pos rfl, if_neg (Ne.symm hne)] at hone
      cases hone
    · have hfirst := hall entry.1
      rw [(lastScore_eq_none_iff entries entry.1).mpr hmissing, if_pos rfl, if_neg hne] at hfirst
      cases hfirst
  · rintro (hone | ⟨hone, hfirst⟩) order
    · rw [hone]
    · cases hlast : lastScore entries order with
      | some score => rfl
      | none =>
        have hnot := (lastScore_eq_none_iff entries order).mp hlast
        have hone' : order ≠ 1 := fun heq => hnot (heq ▸ hone)
        have hfirst' : order ≠ entry.1 := fun heq => hnot (heq ▸ hfirst)
        rw [if_neg hone', if_neg hfirst']

/-! ### The list -/

theorem accept_some {info info' : List Record} {args : SendArgs} (h : accept getTabId info args = some info') :
    ∃ base order score, args.moudleBase.bind BaseArgs.moudleBase = some base ∧ (getTabId base).isSome ∧
      args.order = some order ∧ args.score = some score ∧ info' = recordSaveResultInfo info ⟨base, order, score⟩ := by
  unfold accept sendLearnResultInfo at h
  cases hbase : args.moudleBase.bind BaseArgs.moudleBase with
  | none => simp [hbase] at h
  | some base =>
    cases htab : getTabId base with
    | none => simp [hbase, htab] at h
    | some tab =>
      cases horder : args.order with
      | none => simp [hbase, htab, horder] at h
      | some order =>
        cases hscore : args.score with
        | none => simp [hbase, htab, horder, hscore] at h
        | some score =>
          simp only [hbase, htab, horder, hscore] at h
          split at h
          · rename_i heq
            split at heq
            · simp at heq
            · simp only [Except.ok.injEq, Prod.mk.injEq, and_true] at heq
              exact ⟨base, order, score, rfl, by rw [htab]; rfl, rfl, rfl, by rw [← Option.some.inj h, ← heq]⟩
          · cases h

theorem sent_snoc {args : SendArgs} {base : MoudleBase} {order score : Int}
    (hbase : args.moudleBase.bind BaseArgs.moudleBase = some base) (horder : args.order = some order)
    (hscore : args.score = some score) (requests : List SendArgs) (other : MoudleBase) :
    sent (requests ++ [args]) other = sent requests other ++ if base = other then [(order, score)] else [] := by
  unfold sent
  rw [List.filterMap_append, List.filterMap_cons, List.filterMap_nil, hbase, horder, hscore]
  by_cases heq : base = other <;> simp [heq]

/-- The list behind accepted requests: the record of each module is the one the requests for it lead to. -/
structure Noted (info : List Record) (requests : List SendArgs) (info' : List Record) : Prop where
  nodup : (info'.map Record.moudleBase).Nodup
  find : ∀ base, (info'.find? fun v => v.moudleBase = base) =
    (sent requests base).foldl (note base) (info.find? fun v => v.moudleBase = base)
  known : ∀ base, sent requests base ≠ [] → (getTabId base).isSome

theorem noted_run {info : List Record} (hinfo : (info.map Record.moudleBase).Nodup) {requests : List SendArgs}
    {info' : List Record} (hrun : run (accept getTabId) info requests = some info') :
    Noted getTabId info requests info' := by
  induction requests using List.reverseRecOn generalizing info' with
  | nil =>
    obtain rfl := Option.some.inj hrun
    exact ⟨hinfo, fun base => rfl, fun base hne => absurd rfl hne⟩
  | append_singleton requests args ih =>
    rw [run_snoc] at hrun
    obtain ⟨info₁, hrun, hstep⟩ := Option.bind_eq_some_iff.mp hrun
    have hnoted := ih hrun
    obtain ⟨base, order, score, hbase, hknown, horder, hscore, rfl⟩ := accept_some getTabId hstep
    have hsent := sent_snoc hbase horder hscore requests
    refine ⟨nodup_recordSaveResultInfo hnoted.nodup [_], fun other => ?_, fun other hne => ?_⟩
    · rw [find_recordSaveResultInfo, hnoted.find, hsent, List.foldl_append]
      change (if base = other then _ else _) = _
      split <;> rfl
    · by_cases heq : base = other
      · exact heq ▸ hknown
      · rw [hsent, if_neg heq, List.append_nil] at hne
        exact hnoted.known other hne

theorem getResultInfo_eq {base : MoudleBase} (hknown : (getTabId base).isSome) (info : List Record) :
    getResultInfo getTabId info (some (argsOf base)) =
      .ok (some ⟨base, (info.find? fun v => v.moudleBase = base).map Record.order,
        ((info.find? fun v => v.moudleBase = base).map Record.score).getD []⟩) := by
  obtain ⟨tab, htab⟩ := Option.isSome_iff_exists.mp hknown
  simp only [getResultInfo, Option.bind_some, moudleBase_argsOf, htab]
  split <;> rename_i hfind <;> rw [hfind] <;> rfl

theorem foldl_note_ne_none (base : MoudleBase) (v : Option Record) {entries : List (Int × Int)} (hne : entries ≠ []) :
    entries.foldl (note base) v ≠ none := by
  obtain ⟨entry, rest, rfl⟩ := List.exists_cons_of_ne_nil hne
  cases v with
  | none =>
    obtain ⟨v', hfold, -⟩ := foldl_note_none base entry rest
    rw [hfold]
    exact Option.some_ne_none v'
  | some v =>
    obtain ⟨v', hfold, -⟩ := foldl_note_some base v (entry :: rest)
    rw [hfold]
    exact Option.some_ne_none v'

variable {getTabId}

theorem Noted.modules {info info' : List Record} {requests : List SendArgs} (h : Noted getTabId info requests info')
    (base : MoudleBase) :
    base ∈ info'.map Record.moudleBase ↔ base ∈ info.map Record.moudleBase ∨ sent requests base ≠ [] := by
  rw [← not_iff_not, not_or, not_not, ← find_eq_none_iff, ← find_eq_none_iff, h.find]
  by_cases hsent : sent requests base = []
  · rw [hsent, List.foldl_nil]
    exact (and_iff_left rfl).symm
  · exact iff_of_false (foldl_note_ne_none base _ hsent) fun hboth => hsent hboth.2

theorem Noted.reads_iff {info info' : List Record} {requests : List SendArgs} (h : Noted getTabId info requests info')
    {base : MoudleBase} (hknown : (getTabId base).isSome) :
    (∃ reply, getResultInfo getTabId info' (some (argsOf base)) = .ok (some reply) ∧
      (∀ order, reply.score.lookup order = (lastScore (sent requests base) order).or (scoreAt info base order)) ∧
      ∀ last ∈ (sent requests base).getLast?, reply.order = some last.1) ↔
        (base ∉ info.map Record.moudleBase → StartsAtOne (sent requests base)) := by
  simp only [getResultInfo_eq getTabId hknown, Except.ok.injEq, Option.some.injEq, exists_eq_left', h.find, scoreAt]
  rw [← find_eq_none_iff]
  cases hfind : info.find? fun v => v.moudleBase = base with
  | some v =>
    obtain ⟨v', hfold, hscore, horder⟩ := foldl_note_some base v (sent requests base)
    rw [hfold]
    refine iff_of_true ⟨hscore, fun last hlast => congrArg some (horder last hlast)⟩ fun hnone => ?_
    cases hnone
  | none =>
    simp only [true_imp_iff, Option.bind_none, Option.or_none]
    cases hsent : sent requests base with
    | nil =>
      refine iff_of_true ⟨fun order => rfl, fun last hlast => ?_⟩ trivial
      cases hlast
    | cons entry entries =>
      obtain ⟨v', hfold, hscore, horder⟩ := foldl_note_none base entry entries
      rw [hfold, ← startsAtOne_iff]
      change (∀ order, v'.score.lookup order = _) ∧ (∀ last ∈ _, some v'.order = _) ↔ _
      simp only [hscore]
      exact and_iff_left fun last hlast => congrArg some (horder last hlast)

/-- **Recorded scores.** For every list with distinct modules and every sequence of accepted requests: what is read back is
what was sent exactly when each module that was not in the list starts with order 1, or sends its first order and order 1
again. -/
theorem recorded_iff_startsAtOne (info : List Record) (hinfo : (info.map Record.moudleBase).Nodup)
    (requests : List SendArgs) (info' : List Record) (hrun : run (accept getTabId) info requests = some info') :
    Recorded getTabId info requests info' ↔
      ∀ base, base ∉ info.map Record.moudleBase → StartsAtOne (sent requests base) := by
  have hnoted := noted_run getTabId hinfo hrun
  constructor
  · intro h base hnew
    by_cases hsent : sent requests base = []
    · rw [hsent]
      trivial
    · have hknown := hnoted.known base hsent
      exact (hnoted.reads_iff hknown).mp (h.reads base hknown) hnew
  · intro hstarts
    exact ⟨hnoted.nodup, hnoted.modules, fun base hknown => (hnoted.reads_iff hknown).mpr (hstarts base)⟩

/-- Two results of a new module, the first of them with order 1. -/
theorem recorded_iff_startsAtOne_two_results :
    ∃ info', run (accept fun _ => some 5) [] [⟨some (argsOf ⟨3, 1, 1, 11⟩), some 1, some 60⟩,
        ⟨some (argsOf ⟨3, 1, 1, 11⟩), some 2, some 90⟩] = some info' ∧
      Recorded (fun _ => some 5) [] [⟨some (argsOf ⟨3, 1, 1, 11⟩), some 1, some 60⟩,
        ⟨some (argsOf ⟨3, 1, 1, 11⟩), some 2, some 90⟩] info' := by
  refine ⟨_, rfl, (recorded_iff_startsAtOne [] List.nodup_nil _ _ rfl).mpr fun base _ => ?_⟩
  by_cases hbase : ⟨3, 1, 1, 11⟩ = base
  · subst hbase
    exact .inl rfl
  · simp [sent, hbase, StartsAtOne]

/-- The first result of a module has order 3, and is read back as that of order 1. -/
theorem not_recorded_third_order_first :
    ¬ ∀ (getTabId : MoudleBase → Option Nat) (info : List Record), (info.map Record.moudleBase).Nodup →
      ∀ (requests : List SendArgs) (info' : List Record), run (accept getTabId) info requests = some info' →
        Recorded getTabId info requests info' := by
  intro hall
  have hrecorded := hall (fun _ => some 5) [] List.nodup_nil [⟨some (argsOf ⟨3, 1, 1, 11⟩), some 3, some 60⟩] _ rfl
  obtain ⟨reply, hreply, hscore, -⟩ := hrecorded.reads ⟨3, 1, 1, 11⟩ rfl
  obtain rfl : ⟨⟨3, 1, 1, 11⟩, some 3, [(1, 60)]⟩ = reply := Option.some.inj (Except.ok.inj hreply)
  exact absurd (hscore 3) (by decide)

end SkynetServer.Recording
