import Mathlib.Data.List.Induction
import Mathlib.Data.List.Nodup
import SkynetServer.Lib.ArrayField

/-!
# Purchases

The `PayInfo` collection has one document for each account, with the array of the purchased courses. `SavePayInfo`
asks for a document with the grade and the term of the course and then either appends the course or overwrites the
element that the database reports. The agent keeps a copy of the array, loaded at login, and `PayCourse` saves only
courses that are not in its copy. Both keep the purchases exactly when no save meets a course of the same grade and
another course of the same term.
-/

namespace SkynetServer.Database

open Lib.ArrayField

structure Pay where
  grade : Int
  term : Int
deriving DecidableEq

/-- The conditions of `SavePayInfo`: `PayInfo.grade` and `PayInfo.term`. -/
def payFields : List (Pay → Int) := [Pay.grade, Pay.term]

/-- The collection: the array of the document of each account, if it has one. -/
abbrev PayCollection (Account : Type) := Account → Option (List Pay)

variable {Account : Type} [DecidableEq Account]

omit [DecidableEq Account] in
/-- `info and info.PayInfo or {}`. -/
def getPayInfo (db : PayCollection Account) (account : Account) : List Pay := (db account).getD []

/-- `$push` with the upsert flag makes the document; `index` is what `PayInfo.$` stands for. -/
def savePayInfo (index : Nat) (db : PayCollection Account) (account : Account) (pay : Pay) : PayCollection Account :=
  match db account with
  | none => Function.update db account (some [pay])
  | some arr =>
    if Matched payFields arr pay then Function.update db account (some (arr.set index pay))
    else Function.update db account (some (arr ++ [pay]))

theorem getPayInfo_savePayInfo (index : Nat) (db : PayCollection Account) (account : Account) (pay : Pay) :
    getPayInfo (savePayInfo index db account pay) account = save payFields index (getPayInfo db account) pay := by
  unfold savePayInfo getPayInfo save
  cases hdoc : db account with
  | none =>
    have hnot : ¬ Matched payFields [] pay := fun h => by simpa using h Pay.grade (by simp [payFields])
    simp [hnot]
  | some arr =>
    by_cases hmatched : Matched payFields arr pay <;> simp [hmatched]

/-! ### Sequences of saves -/

/-- `SavePayInfo` called for one course after the other, whatever element the database reports each time. -/
inductive SaveRun (account : Account) (db : PayCollection Account) : List Pay → PayCollection Account → Prop where
  | nil : SaveRun account db [] db
  | snoc {calls : List Pay} {db' : PayCollection Account} {pay : Pay} {index : Nat}
      (hrun : SaveRun account db calls db') (hindex : Resolves payFields (getPayInfo db' account) pay index) :
      SaveRun account db (calls ++ [pay]) (savePayInfo index db' account pay)

/-- Each stored and each saved course once, and nothing else. -/
def KeepsAll (stored calls arr : List Pay) : Prop := arr.Nodup ∧ ∀ pay, pay ∈ arr ↔ pay ∈ stored ∨ pay ∈ calls

/-- After every call the array is as it should be. -/
def SavesKept (db : PayCollection Account) (account : Account) (calls : List Pay) : Prop :=
  ∀ done, done <+: calls → ∀ db', SaveRun account db done db' →
    KeepsAll (getPayInfo db account) done (getPayInfo db' account)

/-- Whenever a course is saved, of those stored or saved before, none has its grade, or none has its term, or only the
course itself has either. -/
def SavesClear (db : PayCollection Account) (account : Account) (calls : List Pay) : Prop :=
  ∀ done pay, done ++ [pay] <+: calls → Clear payFields (getPayInfo db account ++ done) pay

theorem sameKey_payFields {a pay : Pay} : SameKey payFields a pay ↔ a = pay := by
  constructor
  · intro h
    have hgrade := h Pay.grade (by simp [payFields])
    have hterm := h Pay.term (by simp [payFields])
    cases a
    cases pay
    simp_all
  · rintro rfl f _
    rfl

/-- What a clear save makes of the array. -/
theorem save_pay_of_clear {arr : List Pay} {pay : Pay} {index : Nat} (hclear : Clear payFields arr pay)
    (hindex : Resolves payFields arr pay index) :
    (save payFields index arr pay = arr ++ [pay] ∧ pay ∉ arr) ∨ (save payFields index arr pay = arr ∧ pay ∈ arr) := by
  rcases save_of_clear hclear hindex with ⟨hsave, hnone⟩ | ⟨a, ha, hsame, hsave⟩
  · exact .inl ⟨hsave, fun hmem => hnone pay hmem (sameKey_payFields.mpr rfl)⟩
  · obtain rfl := sameKey_payFields.mp hsame
    refine .inr ⟨hsave.trans ?_, List.mem_of_getElem? ha⟩
    obtain ⟨hlt, rfl⟩ := List.getElem?_eq_some_iff.mp ha
    exact List.set_getElem_self hlt

/-- An element that shares one of the fields may be overwritten, and is then gone. -/
theorem exists_save_loses {arr : List Pay} {pay : Pay} (hnodup : arr.Nodup) (hclear : ¬ Clear payFields arr pay) :
    ∃ index a, Resolves payFields arr pay index ∧ a ∈ arr ∧ a ∉ save payFields index arr pay := by
  simp only [Clear, not_forall, exists_prop] at hclear
  obtain ⟨hmatched, a, ha, hhit, hsame⟩ := hclear
  obtain ⟨index, hindex, hresolves⟩ := resolves_of_hit ha hhit
  refine ⟨index, a, hresolves, ha, ?_⟩
  rw [save, if_pos hmatched]
  obtain ⟨hlt, hget⟩ := List.getElem?_eq_some_iff.mp hindex
  intro hmem
  obtain ⟨j, hj⟩ := List.mem_iff_getElem?.mp hmem
  rw [List.getElem?_set] at hj
  split at hj
  · exact hsame (sameKey_payFields.mpr (Option.some.inj hj).symm)
  · rename_i hne
    obtain ⟨hlt', hget'⟩ := List.getElem?_eq_some_iff.mp hj
    exact hne ((List.Nodup.getElem_inj_iff hnodup).mp (hget.trans hget'.symm))

theorem keepsAll_save {stored calls arr : List Pay} {pay : Pay} {index : Nat} (h : KeepsAll stored calls arr)
    (hclear : Clear payFields arr pay) (hindex : Resolves payFields arr pay index) :
    KeepsAll stored (calls ++ [pay]) (save payFields index arr pay) := by
  obtain ⟨hnodup, hmem⟩ := h
  rcases save_pay_of_clear hclear hindex with ⟨hsave, hnew⟩ | ⟨hsave, hold⟩
  · rw [hsave]
    refine ⟨List.nodup_append'.mpr ⟨hnodup, by simp, by simpa using hnew⟩, fun p => ?_⟩
    rw [List.mem_append, List.mem_append, hmem p]
    tauto
  · rw [hsave]
    refine ⟨hnodup, fun p => ?_⟩
    rw [List.mem_append, List.mem_singleton, hmem p]
    constructor
    · tauto
    · rintro (h | h | rfl)
      · exact .inl h
      · exact .inr h
      · exact (hmem p).mp hold

theorem clear_iff_of_keepsAll {stored calls arr : List Pay} (h : KeepsAll stored calls arr) (pay : Pay) :
    Clear payFields arr pay ↔ Clear payFields (stored ++ calls) pay :=
  clear_congr (fun p => (h.2 p).trans List.mem_append.symm) pay

theorem savesKept_of_clear {db : PayCollection Account} {account : Account} (hnodup : (getPayInfo db account).Nodup)
    {calls : List Pay} (hclear : SavesClear db account calls) : SavesKept db account calls := by
  intro done hdone db' hrun
  induction hrun with
  | nil => exact ⟨hnodup, by simp⟩
  | @snoc done db₀ pay index hrun hindex ih =>
    have hkept := ih ((List.prefix_append _ _).trans hdone)
    rw [getPayInfo_savePayInfo]
    exact keepsAll_save hkept ((clear_iff_of_keepsAll hkept pay).mpr (hclear done pay hdone)) hindex

theorem exists_saveRun (account : Account) (db : PayCollection Account) (calls : List Pay) :
    ∃ db', SaveRun account db calls db' := by
  induction calls using List.reverseRecOn with
  | nil => exact ⟨db, .nil⟩
  | append_singleton calls pay ih =>
    obtain ⟨db', hrun⟩ := ih
    obtain ⟨index, hindex⟩ := exists_resolves payFields (by simp [payFields]) (getPayInfo db' account) pay
    exact ⟨_, hrun.snoc hindex⟩

theorem clear_of_savesKept {db : PayCollection Account} {account : Account} {calls : List Pay}
    (hkept : SavesKept db account calls) : SavesClear db account calls := by
  intro done pay hdone
  by_contra hclear
  obtain ⟨db', hrun⟩ := exists_saveRun account db done
  have hbefore := hkept done ((List.prefix_append _ _).trans hdone) db' hrun
  rw [← clear_iff_of_keepsAll hbefore] at hclear
  obtain ⟨index, a, hindex, ha, hgone⟩ := exists_save_loses hbefore.1 hclear
  have hafter := hkept _ hdone _ (hrun.snoc hindex)
  rw [getPayInfo_savePayInfo] at hafter
  refine hgone ((hafter.2 a).mpr ?_)
  rw [List.mem_append]
  exact ((hbefore.2 a).mp ha).imp_right .inl

/-! ### The agent -/

/-- The arguments of a request; either may be missing. -/
structure PayRequest where
  grade : Option Int
  term : Option Int
deriving DecidableEq

/-- `payInfo` of the agent and the collection. -/
structure Shop (Account : Type) where
  payInfo : List Pay
  db : PayCollection Account

/-- What `login_init` loads. -/
def Shop.login (db : PayCollection Account) (account : Account) : Shop Account := ⟨getPayInfo db account, db⟩

/-- The reply is the field `status`, if there is one. -/
def payCourse (index : Nat) (account : Account) (s : Shop Account) (args : PayRequest) :
    Shop Account × Option Bool :=
  match args.grade, args.term with
  | some grade, some term =>
    if grade < 3 ∨ grade > 6 then (s, none)
    else if term ≠ 1 ∧ term ≠ 2 then (s, none)
    else if ⟨grade, term⟩ ∈ s.payInfo then (s, some false)
    else (⟨s.payInfo ++ [⟨grade, term⟩], savePayInfo index s.db account ⟨grade, term⟩⟩, some true)
  | _, _ => (s, none)

/-- The course a request buys, for an agent that has the courses `payInfo`. -/
def buys (payInfo : List Pay) (args : PayRequest) : Option Pay :=
  match args.grade, args.term with
  | some grade, some term =>
    if grade < 3 ∨ grade > 6 then none
    else if term ≠ 1 ∧ term ≠ 2 then none
    else if ⟨grade, term⟩ ∈ payInfo then none
    else some ⟨grade, term⟩
  | _, _ => none

theorem payCourse_cases (index : Nat) (account : Account) (s : Shop Account) (args : PayRequest) :
    (buys s.payInfo args = none ∧ (payCourse index account s args).1 = s ∧
      (payCourse index account s args).2 ≠ some true) ∨
    ∃ pay, buys s.payInfo args = some pay ∧ pay ∉ s.payInfo ∧
      payCourse index account s args = (⟨s.payInfo ++ [pay], savePayInfo index s.db account pay⟩, some true) := by
  unfold buys payCourse
  cases args.grade with
  | none => exact .inl ⟨rfl, rfl, by simp⟩
  | some grade =>
    cases args.term with
    | none => exact .inl ⟨rfl, rfl, by simp⟩
    | some term =>
      by_cases hgrade : grade < 3 ∨ grade > 6
      · exact .inl (by simp [hgrade])
      by_cases hterm : term ≠ 1 ∧ term ≠ 2
      · exact .inl (by simp only [if_neg hgrade, if_pos hterm]; simp)
      by_cases hmem : ⟨grade, term⟩ ∈ s.payInfo
      · exact .inl (by simp only [if_neg hgrade, if_neg hterm, if_pos hmem]; simp)
      · exact .inr ⟨⟨grade, term⟩, by simp only [if_neg hgrade, if_neg hterm, if_neg hmem], hmem,
          by simp only [if_neg hgrade, if_neg hterm, if_neg hmem]⟩

/-- Requests handled one after the other, and the courses acknowledged with `status = true`. -/
inductive CourseRun (account : Account) (s : Shop Account) :
    List PayRequest → Shop Account → List Pay → Prop where
  | nil : CourseRun account s [] s []
  | snoc {requests : List PayRequest} {s' : Shop Account} {acked : List Pay}
      (hrun : CourseRun account s requests s' acked) (args : PayRequest) (index : Nat)
      (hindex : ∀ pay, buys s'.payInfo args = some pay → Resolves payFields (getPayInfo s'.db account) pay index) :
      CourseRun account s (requests ++ [args]) (payCourse index account s' args).1
        (acked ++ (if (payCourse index account s' args).2 = some true then (buys s'.payInfo args).toList else []))

/-- After every request the stored array and the agent's copy hold the same courses, with all the acknowledged
ones. -/
def CoursesKept (db : PayCollection Account) (account : Account) (requests : List PayRequest) : Prop :=
  ∀ done, done <+: requests → ∀ s' acked, CourseRun account (Shop.login db account) done s' acked →
    (getPayInfo s'.db account).Perm s'.payInfo ∧ ∀ pay ∈ acked, pay ∈ getPayInfo s'.db account ∧ pay ∈ s'.payInfo

/-- The agent's copy after the requests: a bought course is appended. -/
def copyAfter (payInfo : List Pay) (requests : List PayRequest) : List Pay :=
  requests.foldl (fun payInfo args => payInfo ++ (buys payInfo args).toList) payInfo

/-- Whenever a course is bought, the agent has no course of its grade or none of its term. -/
def CoursesClear (db : PayCollection Account) (account : Account) (requests : List PayRequest) : Prop :=
  ∀ done args, done ++ [args] <+: requests → ∀ pay,
    buys (copyAfter (getPayInfo db account) done) args = some pay →
      ¬ Matched payFields (copyAfter (getPayInfo db account) done) pay

theorem copyAfter_snoc (payInfo : List Pay) (requests : List PayRequest) (args : PayRequest) :
    copyAfter payInfo (requests ++ [args]) =
      copyAfter payInfo requests ++ (buys (copyAfter payInfo requests) args).toList := by
  simp [copyAfter, List.foldl_append]

theorem CourseRun.payInfo_eq {account : Account} {db : PayCollection Account} {requests : List PayRequest}
    {s' : Shop Account} {acked : List Pay} (h : CourseRun account (Shop.login db account) requests s' acked) :
    s'.payInfo = copyAfter (getPayInfo db account) requests ∧ ∀ pay ∈ acked, pay ∈ s'.payInfo := by
  induction h with
  | nil => exact ⟨rfl, by simp⟩
  | @snoc requests s' acked hrun args index hindex ih =>
    obtain ⟨hcopy, hacked⟩ := ih
    rw [copyAfter_snoc, ← hcopy]
    rcases payCourse_cases index account s' args with ⟨hnone, hstate, hreply⟩ | ⟨pay, hbuys, -, heq⟩
    · rw [hnone, hstate, if_neg hreply]
      simpa using hacked
    · rw [hbuys, heq]
      simp only [Option.toList_some, if_true, true_and, List.mem_append, List.mem_singleton]
      exact fun p hp => hp.imp_left (hacked p)

theorem coursesKept_of_clear {db : PayCollection Account} {account : Account} {requests : List PayRequest}
    (hclear : CoursesClear db account requests) : CoursesKept db account requests := by
  intro done hdone s' acked hrun
  suffices hperm : (getPayInfo s'.db account).Perm s'.payInfo from
    ⟨hperm, fun pay hpay => ⟨hperm.mem_iff.mpr (hrun.payInfo_eq.2 pay hpay), hrun.payInfo_eq.2 pay hpay⟩⟩
  induction hrun with
  | nil => exact List.Perm.refl _
  | @snoc done s₀ acked hrun args index hindex ih =>
    have hperm := ih ((List.prefix_append _ _).trans hdone)
    rcases payCourse_cases index account s₀ args with ⟨-, hstate, -⟩ | ⟨pay, hbuys, -, heq⟩
    · rw [hstate]
      exact hperm
    · rw [hrun.payInfo_eq.1] at hbuys
      have hnot := hclear done args hdone pay hbuys
      rw [← hrun.payInfo_eq.1, ← matched_congr (fun a => hperm.mem_iff)] at hnot
      rw [heq, getPayInfo_savePayInfo, save, if_neg hnot]
      exact hperm.append_right [pay]

theorem exists_courseRun (account : Account) (s : Shop Account) (requests : List PayRequest) :
    ∃ s' acked, CourseRun account s requests s' acked := by
  induction requests using List.reverseRecOn with
  | nil => exact ⟨s, [], .nil⟩
  | append_singleton requests args ih =>
    obtain ⟨s', acked, hrun⟩ := ih
    cases hbuys : buys s'.payInfo args with
    | none => exact ⟨_, _, hrun.snoc args 0 fun pay h => by rw [hbuys] at h; cases h⟩
    | some pay =>
      obtain ⟨index, hindex⟩ :=
        exists_resolves payFields (by simp [payFields]) (getPayInfo s'.db account) pay
      refine ⟨_, _, hrun.snoc args index fun pay' h => ?_⟩
      rw [hbuys] at h
      exact Option.some.inj h ▸ hindex

theorem clear_of_coursesKept {db : PayCollection Account} {account : Account} {requests : List PayRequest}
    (hkept : CoursesKept db account requests) : CoursesClear db account requests := by
  intro done args hdone pay hbuys hmatched
  obtain ⟨s', acked, hrun⟩ := exists_courseRun account (Shop.login db account) done
  have hbefore := (hkept done ((List.prefix_append _ _).trans hdone) s' acked hrun).1
  rw [← hrun.payInfo_eq.1] at hbuys hmatched
  obtain ⟨index, hindex⟩ :=
    exists_resolves payFields (by simp [payFields]) (getPayInfo s'.db account) pay
  have hafter := (hkept _ hdone _ _ (hrun.snoc args index fun pay' h =>
    Option.some.inj (hbuys.symm.trans h) ▸ hindex)).1
  rcases payCourse_cases index account s' args with ⟨hnone, -⟩ | ⟨pay', hbuys', -, heq⟩
  · rw [hnone] at hbuys
    cases hbuys
  · obtain rfl := Option.some.inj (hbuys.symm.trans hbuys')
    rw [← matched_congr (fun a => hbefore.mem_iff)] at hmatched
    rw [heq, getPayInfo_savePayInfo, save, if_pos hmatched] at hafter
    -- the stored array keeps its length, the copy grows
    have hlength := hafter.length_eq
    rw [List.length_set, List.length_append, hbefore.length_eq] at hlength
    simp at hlength

/-- **Purchases.** For every account whose stored courses are distinct: a sequence of saves keeps the array exact after
each of them exactly when every save is clear, and a sequence of requests keeps the array and the agent's copy
together exactly when every course bought is new in its grade or in its term. -/
theorem purchases_kept_iff_clear (db : PayCollection Account) (account : Account)
    (hnodup : (getPayInfo db account).Nodup) :
    (∀ calls, SavesKept db account calls ↔ SavesClear db account calls) ∧
      ∀ requests, CoursesKept db account requests ↔ CoursesClear db account requests :=
  ⟨fun _ => ⟨clear_of_savesKept, savesKept_of_clear hnodup⟩, fun _ => ⟨clear_of_coursesKept, coursesKept_of_clear⟩⟩

/-- An account with one course. -/
theorem purchases_kept_iff_clear_one_course :
    SavesKept (fun _ : Nat => some [⟨3, 1⟩]) 7 [⟨4, 2⟩, ⟨4, 2⟩] ↔
      SavesClear (fun _ : Nat => some [⟨3, 1⟩]) 7 [⟨4, 2⟩, ⟨4, 2⟩] :=
  (purchases_kept_iff_clear (fun _ : Nat => some [⟨3, 1⟩]) 7 (by decide)).1 _

/-- A course between two others: its grade is that of the one, its term that of the other. -/
theorem not_savesKept_between :
    ¬ ∀ (db : PayCollection Nat) (account : Nat) (calls : List Pay), (getPayInfo db account).Nodup →
      SavesKept db account calls := by
  intro hall
  have hclear := clear_of_savesKept (hall (fun _ => some [⟨3, 1⟩, ⟨4, 2⟩]) 7 [⟨3, 2⟩] (by decide)) [] ⟨3, 2⟩
    List.prefix_rfl
  have hmatched : Matched payFields (getPayInfo (fun _ : Nat => some [⟨3, 1⟩, ⟨4, 2⟩]) 7 ++ []) ⟨3, 2⟩ := by decide
  have hsame := hclear hmatched ⟨3, 1⟩ (by decide) ⟨Pay.grade, by simp [payFields], rfl⟩
  exact absurd (sameKey_payFields.mp hsame) (by decide)

end SkynetServer.Database
