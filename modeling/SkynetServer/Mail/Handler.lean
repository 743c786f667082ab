import Mathlib.Data.List.Nodup
import SkynetServer.Lib.Run

/-!
# The mailbox of a user

`mail_handler.lua` keeps the mails of the user in the list `mails`. Two requests hand the items of mails to `add_item_list`,
two delete mails, one marks a mail as read, and `CMD.receive_mail` puts a new one behind the others. All of them look at the
status of a mail; only `RPC.del_mail` does not look at its items as well. The mailbox that a run starts from is arbitrary: the
body of `login_init`, which took it over from the character, is commented out.
-/

namespace SkynetServer.MailHandler

open Lib

/-- The values of `constant.lua` for the status of a mail. -/
inductive Status where
  | alreadySend
  | undisposed
  | alreadyRead
  | alreadyGet
deriving DecidableEq

variable {Item : Type}

structure MailInfo (Item : Type) where
  mailGuid : String
  status : Status
  itemList : Option (List Item)
deriving DecidableEq

/-- A mail in the list. `table` tells its Lua table from all others: a mail that comes later is another table even if it has
the guid of one that has been deleted. -/
structure Mail (Item : Type) extends MailInfo Item where
  table : Nat
deriving DecidableEq

/-- The calls that the handler makes. -/
inductive Effect (Item : Type) where
  | addItemList (table : Nat) (itemList : List Item)
  | updateMail (mail : Mail Item)
  | delMail (mailGuid : String)
  | saveMail (mail : Mail Item)
  | syncNewMail (mail : Mail Item)

/-- `tables` counts the mails there have been, and `claimed` are those that came as `AlreadyGet`: their items had been handed
over before. -/
structure Mailbox (Item : Type) where
  mails : List (Mail Item)
  tables : Nat
  claimed : List Nat
  log : List (Effect Item) := []

/-- What a call returns. A warning stands for a call that returns nothing. -/
inductive Reply where
  | warn (text : String)
  | mailGuid (mailGuid : String)
  | mailGuidList (mailGuids : List String)
  | delMailGuidList (mailGuids : List String)
  | nothing
  | failed (message : String)
deriving DecidableEq

inductive Call (Item : Type) where
  | getMailMessage (mailGuid : Option String)
  | receiveMailItem (mailGuid : Option String)
  | receiveAllMailItem
  | delMail (mailGuid : Option String)
  | delAllMail
  | receiveMail (mailInfo : MailInfo Item)

/-- The index counts from 0. -/
def findMail (mailGuid : String) : List (Mail Item) → Option (Nat × Mail Item)
  | [] => none
  | v :: rest =>
    if v.mailGuid = mailGuid then some (0, v) else (findMail mailGuid rest).map fun (k, v) => (k + 1, v)

namespace Mailbox

/-- Write the status of the mails that are chosen. -/
def write (box : Mailbox Item) (chosen : Mail Item → Bool) (status : Status) : List (Mail Item) :=
  box.mails.map fun v => if chosen v then { v with status := status } else v

/-- `user.CMD.add_item_list(item_list)` and `update_mail(v)`, behind `v.status = constant.AlreadyGet`. -/
def claimEffects (v : Mail Item) : List (Effect Item) :=
  match v.itemList with
  | none => []
  | some itemList => [.addItemList v.table itemList, .updateMail { v with status := .alreadyGet }]

/-- `RPC.get_mail_message`. -/
def getMailMessage (box : Mailbox Item) : Option String → Mailbox Item × Reply
  | none => (box, .warn "get_mail_message param error : ")
  | some mailGuid =>
    match findMail mailGuid box.mails with
    | none => (box, .warn "get_mail_message mail_guid error : ")
    | some (_, v) =>
      if v.status ≠ .undisposed then (box, .warn "get_mail_message mail status error : ")
      else
        ({ box with
          mails := box.write (·.table = v.table) .alreadyRead
          log := box.log ++ [.updateMail { v with status := .alreadyRead }] }, .mailGuid mailGuid)

/-- `RPC.receive_mail_item`. -/
def receiveMailItem (box : Mailbox Item) : Option String → Mailbox Item × Reply
  | none => (box, .warn "receive_mail_item param error : ")
  | some mailGuid =>
    match findMail mailGuid box.mails with
    | none => (box, .warn "receive_mail_item mail_guid error : ")
    | some (_, v) =>
      if v.status = .alreadyGet then (box, .warn "receive_mail_item mail status error : ")
      else if v.itemList = none then (box, .warn "receive_mail_item mail not item receive : ")
      else
        ({ box with
          mails := box.write (·.table = v.table) .alreadyGet
          log := box.log ++ claimEffects v }, .mailGuid mailGuid)

/-- The test of `receive_all_mail_item`. -/
def claimable (v : Mail Item) : Bool := v.status ≠ .alreadyGet && v.itemList.isSome

/-- `RPC.receive_all_mail_item`. A turn of its loop changes its own mail only. -/
def receiveAllMailItem (box : Mailbox Item) : Mailbox Item × Reply :=
  ({ box with
    mails := box.write claimable .alreadyGet
    log := box.log ++ (box.mails.filter claimable).flatMap claimEffects },
    .mailGuidList ((box.mails.filter claimable).map (·.mailGuid)))

/-- The local function `del_mail`. -/
def removeMail (box : Mailbox Item) (mailGuid : String) : Except String (Mailbox Item) :=
  match findMail mailGuid box.mails with
  | none => .error "error  del_mail---mail not exist"
  | some (index, _) => .ok { box with
      mails := box.mails.eraseIdx index
      log := box.log ++ [.delMail mailGuid] }

/-- `RPC.del_mail`. -/
def delMail (box : Mailbox Item) : Option String → Mailbox Item × Reply
  | none => (box, .warn "del_mail param error : ")
  | some mailGuid =>
    match findMail mailGuid box.mails with
    | none => (box, .warn "del_mail mail_guid error : ")
    | some (_, v) =>
      if v.status = .undisposed then (box, .warn "del_mail mail status error : ")
      else
        match box.removeMail mailGuid with
        | .error message => (box, .failed message)
        | .ok box => (box, .mailGuid mailGuid)

/-- The test of `del_all_mail`. -/
def deletable (v : Mail Item) : Bool := v.status = .alreadyGet || v.status = .alreadyRead && v.itemList.isNone

/-- The second loop of `del_all_mail`, which an error leaves in the middle. -/
def removeAll : List String → Mailbox Item → Mailbox Item × Option String
  | [], box => (box, none)
  | mailGuid :: rest, box =>
    match box.removeMail mailGuid with
    | .error message => (box, some message)
    | .ok box => removeAll rest box

/-- `RPC.del_all_mail`. -/
def delAllMail (box : Mailbox Item) : Mailbox Item × Reply :=
  let delMailGuidList := (box.mails.filter deletable).map (·.mailGuid)
  match removeAll delMailGuidList box with
  | (box, some message) => (box, .failed message)
  | (box, none) => (box, .delMailGuidList delMailGuidList)

/-- `CMD.receive_mail`. -/
def receiveMail (box : Mailbox Item) (mailInfo : MailInfo Item) : Mailbox Item × Reply :=
  match findMail mailInfo.mailGuid box.mails with
  | some _ => (box, .failed ("error save_mail mail already exist" ++ mailInfo.mailGuid))
  | none =>
    let v : Mail Item := { mailInfo with table := box.tables }
    ({ mails := box.mails ++ [v]
       tables := box.tables + 1
       claimed := if v.status = .alreadyGet then box.claimed ++ [v.table] else box.claimed
       log := box.log ++ [.saveMail v, .syncNewMail v] }, .nothing)

def call (box : Mailbox Item) : Call Item → Mailbox Item × Reply
  | .getMailMessage mailGuid => box.getMailMessage mailGuid
  | .receiveMailItem mailGuid => box.receiveMailItem mailGuid
  | .receiveAllMailItem => box.receiveAllMailItem
  | .delMail mailGuid => box.delMail mailGuid
  | .delAllMail => box.delAllMail
  | .receiveMail mailInfo => box.receiveMail mailInfo

/-- The mailbox that holds the given mails. -/
def ofMails (infos : List (MailInfo Item)) : Mailbox Item where
  mails := infos.mapIdx fun i info => { info with table := i }
  tables := infos.length
  claimed := ((infos.mapIdx fun i info => ({ info with table := i } : Mail Item)).filter (·.status = .alreadyGet)).map
    (·.table)

/-- The mails whose item lists are handed over by calls of `add_item_list`. -/
def grants (effects : List (Effect Item)) : List Nat :=
  effects.filterMap fun
    | .addItemList table _ => some table
    | _ => none

/-- The mails whose items have been handed over, once for each time. -/
def granted (box : Mailbox Item) : List Nat := box.claimed ++ grants box.log

/-- No items are handed over twice, and a mail with items only leaves once they have been. -/
structure Kept (box : Mailbox Item) (c : Call Item) : Prop where
  once : (box.call c).1.granted.Nodup
  leaves : ∀ v ∈ box.mails, v.itemList ≠ none → v.table ∉ (box.call c).1.mails.map (·.table) → v.table ∈ box.granted

/-- `RPC.del_mail` of a mail with items that is neither `Undisposed` nor `AlreadyGet`. -/
def Discards (box : Mailbox Item) (c : Call Item) : Prop :=
  ∃ mailGuid index v, c = .delMail (some mailGuid) ∧ findMail mailGuid box.mails = some (index, v) ∧
    v.status ≠ .undisposed ∧ v.status ≠ .alreadyGet ∧ v.itemList ≠ none

/-! ### Finding and removing -/

theorem findMail_some {mailGuid : String} {mails : List (Mail Item)} {index : Nat} {v : Mail Item}
    (h : findMail mailGuid mails = some (index, v)) : v ∈ mails ∧ v.mailGuid = mailGuid := by
  induction mails generalizing index with
  | nil => cases h
  | cons first rest ih =>
    rw [findMail] at h
    split at h
    · rename_i heq
      obtain ⟨-, rfl⟩ := Prod.mk.inj (Option.some.inj h)
      exact ⟨List.mem_cons_self, heq⟩
    · obtain ⟨⟨k, w⟩, hfound, heq⟩ := Option.map_eq_some_iff.mp h
      obtain ⟨-, rfl⟩ := Prod.mk.inj heq
      obtain ⟨hmem, hguid⟩ := ih hfound
      exact ⟨List.mem_cons_of_mem _ hmem, hguid⟩

theorem findMail_eq_none_iff (mailGuid : String) (mails : List (Mail Item)) :
    findMail mailGuid mails = none ↔ mailGuid ∉ mails.map (·.mailGuid) := by
  induction mails with
  | nil => simp [findMail]
  | cons first rest ih =>
    rw [findMail]
    split
    · rename_i heq
      simp [heq]
    · rename_i hne
      rw [Option.map_eq_none_iff, ih, List.map_cons, List.mem_cons, not_or]
      exact ⟨fun h => ⟨fun heq => hne heq.symm, h⟩, fun h => h.2⟩

theorem eraseIdx_of_findMail {mailGuid : String} {mails : List (Mail Item)} {index : Nat} {v : Mail Item}
    (hnodup : (mails.map (·.mailGuid)).Nodup) (h : findMail mailGuid mails = some (index, v)) :
    mails.eraseIdx index = mails.filter (·.mailGuid ≠ mailGuid) := by
  induction mails generalizing index with
  | nil => cases h
  | cons first rest ih =>
    obtain ⟨hfirst, hnodup'⟩ := List.nodup_cons.mp hnodup
    rw [findMail] at h
    split at h
    · rename_i heq
      obtain ⟨rfl, -⟩ := Prod.mk.inj (Option.some.inj h)
      rw [List.eraseIdx_cons_zero, List.filter_cons_of_neg (by simpa using heq), eq_comm, List.filter_eq_self]
      intro w hw
      refine decide_eq_true fun hguid => hfirst ?_
      exact List.mem_map.mpr ⟨w, hw, hguid.trans heq.symm⟩
    · rename_i hne
      obtain ⟨⟨k, w⟩, hfound, heq⟩ := Option.map_eq_some_iff.mp h
      obtain ⟨rfl, rfl⟩ := Prod.mk.inj heq
      rw [List.eraseIdx_cons_succ, ih hnodup' hfound, List.filter_cons_of_pos (by simpa using hne)]

theorem removeMail_eq {box : Mailbox Item} {mailGuid : String} (hnodup : (box.mails.map (·.mailGuid)).Nodup)
    (hmem : mailGuid ∈ box.mails.map (·.mailGuid)) :
    box.removeMail mailGuid = .ok { box with
      mails := box.mails.filter (·.mailGuid ≠ mailGuid)
      log := box.log ++ [.delMail mailGuid] } := by
  unfold removeMail
  cases hfind : findMail mailGuid box.mails with
  | none => exact absurd hmem ((findMail_eq_none_iff _ _).mp hfind)
  | some found =>
    obtain ⟨index, v⟩ := found
    simp only [eraseIdx_of_findMail hnodup hfind]

@[simp] theorem grants_nil : grants ([] : List (Effect Item)) = [] := rfl

@[simp] theorem grants_append (effects effects' : List (Effect Item)) :
    grants (effects ++ effects') = grants effects ++ grants effects' := List.filterMap_append

theorem removeAll_eq (mailGuids : List String) (box : Mailbox Item) (hnodup : (box.mails.map (·.mailGuid)).Nodup)
    (hlist : mailGuids.Nodup) (hmem : ∀ mailGuid ∈ mailGuids, mailGuid ∈ box.mails.map (·.mailGuid)) :
    ∃ log, removeAll mailGuids box =
        ({ box with mails := box.mails.filter (·.mailGuid ∉ mailGuids), log := log }, none) ∧
      grants log = grants box.log := by
  induction mailGuids generalizing box with
  | nil =>
    refine ⟨box.log, ?_, rfl⟩
    simp [removeAll]
  | cons mailGuid rest ih =>
    obtain ⟨hfirst, hlist'⟩ := List.nodup_cons.mp hlist
    rw [removeAll, removeMail_eq hnodup (hmem mailGuid List.mem_cons_self)]
    have hsublist : ((box.mails.filter (·.mailGuid ≠ mailGuid)).map (·.mailGuid)).Sublist (box.mails.map (·.mailGuid)) :=
      List.filter_sublist.map _
    obtain ⟨log, hremove, hgrants⟩ := ih { box with
        mails := box.mails.filter (·.mailGuid ≠ mailGuid)
        log := box.log ++ [.delMail mailGuid] } (hnodup.sublist hsublist) hlist' (by
      intro other hother
      obtain ⟨v, hv, hguid⟩ := List.mem_map.mp (hmem other (List.mem_cons_of_mem _ hother))
      refine List.mem_map.mpr ⟨v, List.mem_filter.mpr ⟨hv, ?_⟩, hguid⟩
      refine decide_eq_true fun heq => hfirst ?_
      rw [← heq, hguid]
      exact hother)
    refine ⟨log, hremove.trans ?_, hgrants.trans ?_⟩
    · rw [List.filter_filter]
      congr 2
      apply List.filter_congr
      intro v _
      simp [Bool.and_comm]
    · rw [grants_append]
      exact List.append_nil _

/-! ### What a call can do -/

/-- The mailbox behind a call. -/
inductive Moves (box : Mailbox Item) (c : Call Item) : Mailbox Item → Prop where
  | same : Moves box c box
  | reads (chosen : Mail Item → Bool) (effects : List (Effect Item))
      (hchosen : ∀ v ∈ box.mails, chosen v → v.status = .undisposed) (heffects : grants effects = []) :
      Moves box c { box with mails := box.write chosen .alreadyRead, log := box.log ++ effects }
  | claims (chosen : Mail Item → Bool) (hchosen : ∀ v ∈ box.mails, chosen v → claimable v) :
      Moves box c { box with
        mails := box.write chosen .alreadyGet
        log := box.log ++ (box.mails.filter chosen).flatMap claimEffects }
  | removes (keep : Mail Item → Bool) (log : List (Effect Item)) (hlog : grants log = grants box.log)
      (hkeep : ∀ v ∈ box.mails, ¬ keep v → v.status = .alreadyGet ∨ v.itemList = none ∨ Discards box c) :
      Moves box c { box with mails := box.mails.filter keep, log := log }
  | adds (v : Mail Item) (htable : v.table = box.tables) (hguid : v.mailGuid ∉ box.mails.map (·.mailGuid))
      (effects : List (Effect Item)) (heffects : grants effects = []) :
      Moves box c {
        mails := box.mails ++ [v]
        tables := box.tables + 1
        claimed := if v.status = .alreadyGet then box.claimed ++ [v.table] else box.claimed
        log := box.log ++ effects }

/-- What holds between two calls: the status of a mail with items tells whether they have been handed over. -/
structure Inv (box : Mailbox Item) : Prop where
  guids : (box.mails.map (·.mailGuid)).Nodup
  tables : (box.mails.map (·.table)).Nodup
  below : ∀ v ∈ box.mails, v.table < box.tables
  granted_below : ∀ table ∈ box.granted, table < box.tables
  granted_nodup : box.granted.Nodup
  got : ∀ v ∈ box.mails, v.itemList ≠ none → (v.status = .alreadyGet ↔ v.table ∈ box.granted)

theorem Inv.eq_of_table {box : Mailbox Item} (h : Inv box) {v w : Mail Item} (hv : v ∈ box.mails) (hw : w ∈ box.mails)
    (heq : v.table = w.table) : v = w := List.inj_on_of_nodup_map h.tables hv hw heq

theorem Inv.eq_of_guid {box : Mailbox Item} (h : Inv box) {v w : Mail Item} (hv : v ∈ box.mails) (hw : w ∈ box.mails)
    (heq : v.mailGuid = w.mailGuid) : v = w := List.inj_on_of_nodup_map h.guids hv hw heq

theorem filter_table {mails : List (Mail Item)} (hnodup : (mails.map (·.table)).Nodup) {v : Mail Item} (hv : v ∈ mails) :
    mails.filter (·.table = v.table) = [v] := by
  induction mails with
  | nil => cases hv
  | cons first rest ih =>
    obtain ⟨hfirst, hnodup'⟩ := List.nodup_cons.mp hnodup
    rcases List.mem_cons.mp hv with rfl | hv
    · rw [List.filter_cons_of_pos (by simp), List.filter_eq_nil_iff.mpr]
      intro w hw heq
      exact hfirst (List.mem_map.mpr ⟨w, hw, of_decide_eq_true heq⟩)
    · rw [List.filter_cons_of_neg, ih hnodup' hv]
      intro heq
      exact hfirst (List.mem_map.mpr ⟨v, hv, (of_decide_eq_true heq).symm⟩)

theorem moves_getMailMessage {box : Mailbox Item} (h : Inv box) (c : Call Item) (mailGuid : Option String) :
    Moves box c (box.getMailMessage mailGuid).1 := by
  cases mailGuid with
  | none => exact .same
  | some mailGuid =>
    rw [getMailMessage]
    split
    · exact .same
    · rename_i index v hfind
      split
      · exact .same
      · rename_i hstatus
        refine .reads (·.table = v.table) _ (fun w hw hchosen => ?_) rfl
        rw [h.eq_of_table hw (findMail_some hfind).1 (of_decide_eq_true hchosen)]
        exact not_not.mp hstatus

theorem moves_receiveMailItem {box : Mailbox Item} (h : Inv box) (c : Call Item) (mailGuid : Option String) :
    Moves box c (box.receiveMailItem mailGuid).1 := by
  cases mailGuid with
  | none => exact .same
  | some mailGuid =>
    rw [receiveMailItem]
    split
    · exact .same
    · rename_i index v hfind
      have hmem := (findMail_some hfind).1
      split
      · exact .same
      split
      · exact .same
      · rename_i hstatus hitems
        have hmoves := Moves.claims (c := c) (·.table = v.table) (fun w hw hchosen => by
          rw [h.eq_of_table hw hmem (of_decide_eq_true hchosen), claimable]
          simp [hstatus, Option.isSome_iff_ne_none, hitems])
        rw [filter_table h.tables hmem, List.flatMap_singleton] at hmoves
        exact hmoves

theorem moves_delMail {box : Mailbox Item} (h : Inv box) (mailGuid : Option String) :
    Moves box (.delMail mailGuid) (box.delMail mailGuid).1 := by
  cases mailGuid with
  | none => exact .same
  | some mailGuid =>
    rw [delMail]
    split
    · exact .same
    · rename_i index v hfind
      obtain ⟨hmem, hguid⟩ := findMail_some hfind
      split
      · exact .same
      · rename_i hstatus
        rw [removeMail_eq h.guids (List.mem_map.mpr ⟨v, hmem, hguid⟩)]
        refine .removes _ _ ?_ ?_
        · rw [grants_append]
          exact List.append_nil _
        · intro w hw hkeep
          have heq : w = v := h.eq_of_guid hw hmem (by simpa [hguid] using hkeep)
          subst heq
          by_cases hget : w.status = .alreadyGet
          · exact .inl hget
          by_cases hitems : w.itemList = none
          · exact .inr (.inl hitems)
          · exact .inr (.inr ⟨mailGuid, index, w, rfl, hfind, hstatus, hget, hitems⟩)

theorem moves_delAllMail {box : Mailbox Item} (h : Inv box) (c : Call Item) : Moves box c (box.delAllMail).1 := by
  have hsublist : ((box.mails.filter deletable).map (·.mailGuid)).Sublist (box.mails.map (·.mailGuid)) :=
    List.filter_sublist.map _
  obtain ⟨log, hremove, hgrants⟩ := removeAll_eq ((box.mails.filter deletable).map (·.mailGuid)) box h.guids
    (h.guids.sublist hsublist) (fun _ hmem => hsublist.mem hmem)
  simp only [delAllMail, hremove]
  refine .removes _ log hgrants ?_
  intro v hv hkeep
  obtain ⟨w, hmem, hdel, hguid⟩ : ∃ w, w ∈ box.mails ∧ deletable w = true ∧ w.mailGuid = v.mailGuid := by
    simpa using hkeep
  rw [h.eq_of_guid hmem hv hguid] at hdel
  simp only [deletable, Bool.or_eq_true, decide_eq_true_eq, Bool.and_eq_true, Option.isNone_iff_eq_none] at hdel
  tauto

theorem moves_call {box : Mailbox Item} (h : Inv box) (c : Call Item) : Moves box c (box.call c).1 := by
  cases c with
  | getMailMessage mailGuid => exact moves_getMailMessage h _ mailGuid
  | receiveMailItem mailGuid => exact moves_receiveMailItem h _ mailGuid
  | receiveAllMailItem => exact .claims claimable fun _ _ hclaimable => hclaimable
  | delMail mailGuid => exact moves_delMail h mailGuid
  | delAllMail => exact moves_delAllMail h _
  | receiveMail mailInfo =>
    rw [call, receiveMail]
    split
    · exact .same
    · rename_i hfind
      exact .adds _ rfl ((findMail_eq_none_iff _ _).mp hfind) _ rfl

/-! ### Every call keeps the invariant -/

theorem mem_write {box : Mailbox Item} {chosen : Mail Item → Bool} {status : Status} {w : Mail Item}
    (h : w ∈ box.write chosen status) :
    ∃ v ∈ box.mails, w = if chosen v then { v with status := status } else v := by
  obtain ⟨v, hv, rfl⟩ := List.mem_map.mp h
  exact ⟨v, hv, rfl⟩

@[simp] theorem map_guid_write (box : Mailbox Item) (chosen : Mail Item → Bool) (status : Status) :
    (box.write chosen status).map (·.mailGuid) = box.mails.map (·.mailGuid) := by
  rw [write, List.map_map]
  apply List.map_congr_left
  intro v _
  simp only [Function.comp_apply]
  split <;> rfl

@[simp] theorem map_table_write (box : Mailbox Item) (chosen : Mail Item → Bool) (status : Status) :
    (box.write chosen status).map (·.table) = box.mails.map (·.table) := by
  rw [write, List.map_map]
  apply List.map_congr_left
  intro v _
  simp only [Function.comp_apply]
  split <;> rfl

/-- Writing the status of some mails touches neither the guids nor the tables; what is left is whether the status of each
mail still tells what has been handed over. -/
theorem Inv.write {box : Mailbox Item} (h : Inv box) {chosen : Mail Item → Bool} {status : Status}
    {log : List (Effect Item)} (hbelow : ∀ table ∈ box.claimed ++ grants log, table < box.tables)
    (hnodup : (box.claimed ++ grants log).Nodup)
    (hgot : ∀ v ∈ box.mails, v.itemList ≠ none →
      ((if chosen v then status else v.status) = .alreadyGet ↔ v.table ∈ box.claimed ++ grants log)) :
    Inv { box with mails := box.write chosen status, log := log } := by
  refine { guids := ?guids
           tables := ?tables
           below := ?below
           granted_below := hbelow
           granted_nodup := hnodup
           got := ?got }
  case guids =>
    rw [map_guid_write]
    exact h.guids
  case tables =>
    rw [map_table_write]
    exact h.tables
  case below =>
    intro w hw
    obtain ⟨v, hv, rfl⟩ := mem_write hw
    split <;> exact h.below v hv
  case got =>
    intro w hw hitems
    obtain ⟨v, hv, rfl⟩ := mem_write hw
    by_cases hc : chosen v
    · simp only [hc, if_true] at hitems ⊢
      have hv' := hgot v hv hitems
      rwa [if_pos hc] at hv'
    · simp only [hc, Bool.false_eq_true, if_false] at hitems ⊢
      have hv' := hgot v hv hitems
      rwa [if_neg hc] at hv'

theorem Inv.reads {box : Mailbox Item} (h : Inv box) {chosen : Mail Item → Bool} {effects : List (Effect Item)}
    (hchosen : ∀ v ∈ box.mails, chosen v → v.status = .undisposed) (heffects : grants effects = []) :
    Inv { box with mails := box.write chosen .alreadyRead, log := box.log ++ effects } := by
  have hgranted : box.claimed ++ grants (box.log ++ effects) = box.granted := by
    rw [grants_append, heffects, List.append_nil]
    rfl
  apply h.write
  · rw [hgranted]
    exact h.granted_below
  · rw [hgranted]
    exact h.granted_nodup
  · intro v hv hitems
    rw [hgranted, ← h.got v hv hitems]
    by_cases hc : chosen v
    · simp [hc, hchosen v hv hc]
    · simp [hc]

theorem grants_claimEffects {mails : List (Mail Item)} (hclaimable : ∀ v ∈ mails, claimable v) :
    grants (mails.flatMap claimEffects) = mails.map (·.table) := by
  induction mails with
  | nil => rfl
  | cons v rest ih =>
    have hv := hclaimable v List.mem_cons_self
    simp only [claimable, Bool.and_eq_true] at hv
    obtain ⟨itemList, hitems⟩ := Option.isSome_iff_exists.mp hv.2
    rw [List.flatMap_cons, grants_append, ih fun w hw => hclaimable w (List.mem_cons_of_mem _ hw), claimEffects, hitems]
    rfl

theorem Inv.claims {box : Mailbox Item} (h : Inv box) {chosen : Mail Item → Bool}
    (hchosen : ∀ v ∈ box.mails, chosen v → claimable v) :
    Inv { box with
      mails := box.write chosen .alreadyGet
      log := box.log ++ (box.mails.filter chosen).flatMap claimEffects } := by
  have hclaimable : ∀ v ∈ box.mails.filter chosen, claimable v := fun v hv =>
    hchosen v (List.mem_filter.mp hv).1 (List.mem_filter.mp hv).2
  have hgranted : box.claimed ++ grants (box.log ++ (box.mails.filter chosen).flatMap claimEffects) =
      box.granted ++ (box.mails.filter chosen).map (·.table) := by
    rw [grants_append, grants_claimEffects hclaimable, ← List.append_assoc]
    rfl
  apply h.write
  · rw [hgranted]
    intro table hmem
    rcases List.mem_append.mp hmem with hmem | hmem
    · exact h.granted_below table hmem
    · obtain ⟨v, hv, rfl⟩ := List.mem_map.mp hmem
      exact h.below v (List.mem_filter.mp hv).1
  · rw [hgranted, List.nodup_append']
    refine ⟨h.granted_nodup, h.tables.sublist (List.filter_sublist.map _), ?_⟩
    intro table hold hnew
    obtain ⟨v, hv, rfl⟩ := List.mem_map.mp hnew
    have hv' := hclaimable v hv
    simp only [claimable, Bool.and_eq_true, decide_eq_true_eq, Option.isSome_iff_ne_none] at hv'
    exact hv'.1 ((h.got v (List.mem_filter.mp hv).1 hv'.2).mpr hold)
  · intro v hv hitems
    rw [hgranted, List.mem_append]
    by_cases hc : chosen v
    · rw [if_pos hc]
      exact iff_of_true rfl (.inr (List.mem_map.mpr ⟨v, List.mem_filter.mpr ⟨hv, hc⟩, rfl⟩))
    · rw [if_neg hc, h.got v hv hitems]
      refine ⟨.inl, fun hor => hor.resolve_right fun hmem => ?_⟩
      obtain ⟨w, hw, heq⟩ := List.mem_map.mp hmem
      obtain ⟨hw, hchosen'⟩ := List.mem_filter.mp hw
      rw [h.eq_of_table hw hv heq] at hchosen'
      exact hc hchosen'

theorem Inv.removes {box : Mailbox Item} (h : Inv box) (keep : Mail Item → Bool) {log : List (Effect Item)}
    (hlog : grants log = grants box.log) : Inv { box with mails := box.mails.filter keep, log := log } := by
  have hgranted : granted { box with mails := box.mails.filter keep, log := log } = box.granted := by
    simp only [granted, hlog]
  refine { guids := h.guids.sublist (List.filter_sublist.map _)
           tables := h.tables.sublist (List.filter_sublist.map _)
           below := ?below
           granted_below := ?granted_below
           granted_nodup := ?granted_nodup
           got := ?got }
  case below =>
    exact fun v hv => h.below v (List.mem_filter.mp hv).1
  case granted_below =>
    rw [hgranted]
    exact h.granted_below
  case granted_nodup =>
    rw [hgranted]
    exact h.granted_nodup
  case got =>
    intro v hv
    rw [hgranted]
    exact h.got v (List.mem_filter.mp hv).1

theorem Inv.adds {box : Mailbox Item} (h : Inv box) {v : Mail Item} (htable : v.table = box.tables)
    (hguid : v.mailGuid ∉ box.mails.map (·.mailGuid)) {effects : List (Effect Item)} (heffects : grants effects = []) :
    Inv {
      mails := box.mails ++ [v]
      tables := box.tables + 1
      claimed := if v.status = .alreadyGet then box.claimed ++ [v.table] else box.claimed
      log := box.log ++ effects } := by
  have hfresh : v.table ∉ box.granted := by
    intro hmem
    have hlt := h.granted_below v.table hmem
    omega
  have hmem : ∀ table, table ∈ granted {
      mails := box.mails ++ [v]
      tables := box.tables + 1
      claimed := if v.status = .alreadyGet then box.claimed ++ [v.table] else box.claimed
      log := box.log ++ effects } ↔ table ∈ box.granted ∨ v.status = .alreadyGet ∧ table = v.table := by
    intro table
    simp only [granted, grants_append, heffects, List.append_nil]
    split <;> simp_all only [List.mem_append, List.mem_singleton, false_and, true_and, or_false]
    tauto
  refine { guids := ?guids
           tables := ?tables
           below := ?below
           granted_below := ?granted_below
           granted_nodup := ?granted_nodup
           got := ?got }
  case guids =>
    rw [List.map_append, List.map_singleton, List.nodup_append']
    refine ⟨h.guids, List.nodup_singleton _, ?_⟩
    rw [List.disjoint_singleton]
    exact hguid
  case tables =>
    rw [List.map_append, List.map_singleton, List.nodup_append']
    refine ⟨h.tables, List.nodup_singleton _, ?_⟩
    rw [List.disjoint_singleton, List.mem_map]
    rintro ⟨w, hw, heq⟩
    have hlt := h.below w hw
    omega
  case below =>
    intro w hw
    rcases List.mem_append.mp hw with hw | hw
    · exact Nat.lt_succ_of_lt (h.below w hw)
    · rw [List.mem_singleton.mp hw, htable]
      exact Nat.lt_succ_self _
  case granted_below =>
    intro table htab
    rcases (hmem table).mp htab with htab | ⟨-, rfl⟩
    · exact Nat.lt_succ_of_lt (h.granted_below table htab)
    · rw [htable]
      exact Nat.lt_succ_self _
  case granted_nodup =>
    simp only [granted, grants_append, heffects, List.append_nil]
    split
    · have hnodup : (v.table :: box.granted).Nodup := List.nodup_cons.mpr ⟨hfresh, h.granted_nodup⟩
      rw [List.append_assoc]
      exact List.perm_middle.nodup_iff.mpr hnodup
    · exact h.granted_nodup
  case got =>
    intro w hw hitems
    rw [hmem]
    rcases List.mem_append.mp hw with hw | hw
    · rw [h.got w hw hitems]
      refine ⟨.inl, fun hor => hor.resolve_right fun ⟨_, heq⟩ => ?_⟩
      have hlt := h.below w hw
      omega
    · obtain rfl := List.mem_singleton.mp hw
      simp [hfresh]

theorem Inv.moves {box box' : Mailbox Item} {c : Call Item} (h : Inv box) (hmoves : Moves box c box') : Inv box' := by
  cases hmoves with
  | same => exact h
  | reads chosen effects hchosen heffects => exact h.reads hchosen heffects
  | claims chosen hchosen => exact h.claims hchosen
  | removes keep log hlog => exact h.removes keep hlog
  | adds v htable hguid effects heffects => exact h.adds htable hguid heffects

theorem inv_ofMails (infos : List (MailInfo Item)) (hnodup : (infos.map (·.mailGuid)).Nodup) : Inv (ofMails infos) := by
  have hguids : (ofMails infos).mails.map (·.mailGuid) = infos.map (·.mailGuid) := by
    apply List.ext_getElem <;> simp [ofMails]
  have htables : (ofMails infos).mails.map (·.table) = List.range infos.length := by
    apply List.ext_getElem <;> simp [ofMails]
  have hgranted : (ofMails infos).granted = ((ofMails infos).mails.filter (·.status = .alreadyGet)).map (·.table) :=
    List.append_nil _
  have hnodup' : ((ofMails infos).mails.map (·.table)).Nodup := htables ▸ List.nodup_range
  have hbelow : ∀ v ∈ (ofMails infos).mails, v.table < (ofMails infos).tables := by
    intro v hv
    exact List.mem_range.mp (htables ▸ List.mem_map.mpr ⟨v, hv, rfl⟩)
  refine ⟨hguids ▸ hnodup, hnodup', hbelow, ?_, ?_, ?_⟩
  · rw [hgranted]
    intro table hmem
    obtain ⟨v, hv, rfl⟩ := List.mem_map.mp hmem
    exact hbelow v (List.mem_filter.mp hv).1
  · rw [hgranted]
    exact hnodup'.sublist (List.filter_sublist.map _)
  · intro v hv _
    rw [hgranted]
    constructor
    · exact fun hget => List.mem_map.mpr ⟨v, List.mem_filter.mpr ⟨hv, decide_eq_true hget⟩, rfl⟩
    · intro hmem
      obtain ⟨w, hw, heq⟩ := List.mem_map.mp hmem
      obtain ⟨hw, hget⟩ := List.mem_filter.mp hw
      rw [← List.inj_on_of_nodup_map hnodup' hw hv heq]
      exact of_decide_eq_true hget

/-! ### Leaving the mailbox -/

/-- A mail that a call takes away, and that the call does not discard, has been handed over or has no items. -/
theorem Inv.leaves {box box' : Mailbox Item} {c : Call Item} (h : Inv box) (hmoves : Moves box c box')
    (hkept : ¬ Discards box c) {v : Mail Item} (hv : v ∈ box.mails) (hitems : v.itemList ≠ none)
    (hleft : v.table ∉ box'.mails.map (·.table)) : v.table ∈ box.granted := by
  have hmem : v.table ∈ box.mails.map (·.table) := List.mem_map.mpr ⟨v, hv, rfl⟩
  cases hmoves with
  | same => exact absurd hmem hleft
  | reads chosen effects hchosen heffects =>
    rw [map_table_write] at hleft
    exact absurd hmem hleft
  | claims chosen hchosen =>
    rw [map_table_write] at hleft
    exact absurd hmem hleft
  | removes keep log hlog hkeep =>
    have hnot : ¬ keep v := fun hk => hleft (List.mem_map.mpr ⟨v, List.mem_filter.mpr ⟨hv, hk⟩, rfl⟩)
    rcases hkeep v hv hnot with hget | hnone | hdiscards
    · exact (h.got v hv hitems).mp hget
    · exact absurd hnone hitems
    · exact absurd hdiscards hkept
  | adds w htable hguid effects heffects =>
    refine absurd ?_ hleft
    rw [List.map_append]
    exact List.mem_append_left _ hmem

theorem Inv.discards {box : Mailbox Item} {c : Call Item} (h : Inv box) (hdiscards : Discards box c) :
    ∃ v ∈ box.mails, v.itemList ≠ none ∧ v.table ∉ (box.call c).1.mails.map (·.table) ∧ v.table ∉ box.granted := by
  obtain ⟨mailGuid, index, v, rfl, hfind, hundisposed, hget, hitems⟩ := hdiscards
  obtain ⟨hmem, hguid⟩ := findMail_some hfind
  refine ⟨v, hmem, hitems, ?_, fun hgranted => hget ((h.got v hmem hitems).mpr hgranted)⟩
  simp only [call, delMail, hfind, if_neg hundisposed, removeMail_eq h.guids (List.mem_map.mpr ⟨v, hmem, hguid⟩)]
  intro hstill
  obtain ⟨w, hw, htable⟩ := List.mem_map.mp hstill
  obtain ⟨hw, hne⟩ := List.mem_filter.mp hw
  rw [h.eq_of_table hw hmem htable] at hne
  exact of_decide_eq_true hne hguid

theorem Inv.kept_iff {box : Mailbox Item} (h : Inv box) (c : Call Item) : box.Kept c ↔ ¬ box.Discards c := by
  constructor
  · intro hkept hdiscards
    obtain ⟨v, hv, hitems, hleft, hnot⟩ := h.discards hdiscards
    exact hnot (hkept.leaves v hv hitems hleft)
  · intro hnot
    have hmoves := moves_call h c
    exact ⟨(h.moves hmoves).granted_nodup, fun v hv hitems hleft => h.leaves hmoves hnot hv hitems hleft⟩

end Mailbox

/-- One call after the other. -/
def next (box : Mailbox Item) (c : Call Item) : Option (Mailbox Item) := some (box.call c).1

/-- **Mails.** In a run the items of each mail are handed over at most once, and no mail leaves with items that have not been
handed over, exactly when no call discards one. -/
theorem mails_kept_iff_none_discarded (infos : List (MailInfo Item)) (hnodup : (infos.map (·.mailGuid)).Nodup)
    (calls : List (Call Item)) :
    Along next Mailbox.Kept (.ofMails infos) calls ↔
      Along next (fun box c => ¬ box.Discards c) (.ofMails infos) calls := by
  refine along_congr (fun box c (h : Mailbox.Inv box) => h.kept_iff c) ?_ (Mailbox.inv_ofMails infos hnodup)
  intro box c box' h _ hnext
  obtain rfl := Option.some.inj hnext
  exact h.moves (Mailbox.moves_call h c)

/-- The items of the only mail are received before it is deleted. -/
theorem mails_kept_iff_none_discarded_received :
    Along next Mailbox.Kept (.ofMails [⟨"16000000000", .undisposed, some [7]⟩])
      [.receiveMailItem (some "16000000000"), .delMail (some "16000000000")] := by
  refine (mails_kept_iff_none_discarded _ (by decide) _).mpr (along_cons ?_ fun box hbox => along_cons ?_ fun _ _ => ?_)
  · rintro ⟨mailGuid, index, v, hcall, -⟩
    cases hcall
  · obtain rfl := Option.some.inj hbox
    rintro ⟨mailGuid, index, v, hcall, hfind, -, hget, -⟩
    cases hcall
    cases hfind
    exact hget rfl
  · exact along_nil _ _ _

/-- The mail is looked at and deleted. -/
theorem not_mails_kept_read_only :
    ¬ ∀ (infos : List (MailInfo Nat)), (infos.map (·.mailGuid)).Nodup → ∀ calls : List (Call Nat),
      Along next Mailbox.Kept (.ofMails infos) calls := by
  intro h
  have hkept := h [⟨"16000000000", .undisposed, some [7]⟩] (by decide)
    [.getMailMessage (some "16000000000"), .delMail (some "16000000000")] [.getMailMessage (some "16000000000")]
    (.delMail (some "16000000000")) List.prefix_rfl _ rfl
  have hleaves := hkept.leaves ⟨⟨"16000000000", .alreadyRead, some [7]⟩, 0⟩ (by decide) (by decide) (by decide)
  exact absurd hleaves (by decide)

end SkynetServer.MailHandler
