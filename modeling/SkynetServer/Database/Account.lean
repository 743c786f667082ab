import Mathlib.Data.List.Nodup

/-!
# The account tables

The commands of `db/account.lua` on the `Account` and `RoleInfo` collections of one database of the group. An account
number and an id are both Lua numbers, of the type `Key`. A command that runs into a failed assertion has the result
`error`; the database service then replies with nothing.
-/

namespace SkynetServer.Database

structure AccountDoc (Key : Type) where
  id : Key
  account : Key
  password : String
deriving DecidableEq

structure RoleInfoDoc (Key : Type) where
  id : Key
  nickName : String
  sex : Key
deriving DecidableEq

/-- One database of the group. -/
structure Collections (Key : Type) where
  account : List (AccountDoc Key) := []
  roleInfo : List (RoleInfoDoc Key) := []
deriving DecidableEq

inductive Assertion where
  | count
  | roleInfo
deriving DecidableEq

namespace Collections

variable {Key : Type} [DecidableEq Key]

/-- `mongodb.Account:find({Account = account})`. -/
def findAccount (db : Collections Key) (account : Key) : List (AccountDoc Key) :=
  db.account.filter fun doc => doc.account = account

def getUserId (db : Collections Key) (account : Key) : Except Assertion (Option Key) :=
  match db.findAccount account with
  | [] => .ok none
  | ac :: rest => if (ac :: rest).length = 1 then .ok (some ac.id) else .error .count

def authPassword (db : Collections Key) (account : Key) (password : String) : Except Assertion (Option Key) :=
  match db.findAccount account with
  | [] => .ok none
  | ac :: rest =>
    if (ac :: rest).length = 1 then
      if ac.password ≠ password then .ok none else .ok (some ac.id)
    else .error .count

def cmdAccountLoadInfo (db : Collections Key) (id : Key) : Except Assertion (Option (RoleInfoDoc Key)) :=
  match db.account.find? fun doc => doc.id = id with
  | none => .ok none
  | some _ =>
    match db.roleInfo.find? fun doc => doc.id = id with
    | none => .error .roleInfo
    | some role => .ok (some role)

/-- No account number occurs twice, and every account has its role. -/
structure Consistent (db : Collections Key) : Prop where
  nodup : (db.account.map (·.account)).Nodup
  role : ∀ doc ∈ db.account, ∃ role ∈ db.roleInfo, role.id = doc.id

theorem length_findAccount_le {db : Collections Key} (h : (db.account.map (·.account)).Nodup) (account : Key) :
    (db.findAccount account).length ≤ 1 := by
  have hcount := List.nodup_iff_count_le_one.mp h account
  rw [List.count_eq_countP, List.countP_map, List.countP_eq_length_filter] at hcount
  refine Nat.le_trans (Nat.le_of_eq ?_) hcount
  rw [findAccount]
  congr 2

theorem Consistent.commands {db : Collections Key} (h : db.Consistent) (key : Key) (password : String) :
    (∃ result, db.getUserId key = .ok result) ∧ (∃ result, db.authPassword key password = .ok result) ∧
      ∃ result, db.cmdAccountLoadInfo key = .ok result := by
  have hcount := length_findAccount_le h.nodup key
  refine ⟨?_, ?_, ?_⟩
  · unfold getUserId
    split
    · exact ⟨_, rfl⟩
    · rename_i ac rest heq
      rw [heq] at hcount
      rw [if_pos (Nat.le_antisymm hcount (by simp))]
      exact ⟨_, rfl⟩
  · unfold authPassword
    split
    · exact ⟨_, rfl⟩
    · rename_i ac rest heq
      rw [heq] at hcount
      rw [if_pos (Nat.le_antisymm hcount (by simp))]
      split <;> exact ⟨_, rfl⟩
  · unfold cmdAccountLoadInfo
    split
    · exact ⟨_, rfl⟩
    · rename_i doc hdoc
      have hid : doc.id = key := by simpa using List.find?_some hdoc
      obtain ⟨role, hrole, heq⟩ := h.role doc (List.mem_of_find?_eq_some hdoc)
      split
      · rename_i hnone
        exact absurd (List.find?_eq_none.mp hnone role hrole) (by simp [heq, hid])
      · exact ⟨_, rfl⟩

end Collections

end SkynetServer.Database
