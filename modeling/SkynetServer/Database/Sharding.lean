import Mathlib.Algebra.GroupWithZero.Nat
import SkynetServer.Database.Account

/-!
# Sharding

`database.lua` spreads the documents over the databases of a group, by a number or a string. `cmd_account_create` writes
the account and the role to the database of the account number; `GetUserId`, `AuthPassword` and `ChangePassward` go to the
same one, but `cmd_account_loadInfo` goes to the database of the id. So the role of an account is found exactly when its id
leads to the same database as its account number. Numbers are 64-bit integers, strings are bytes.
-/

namespace SkynetServer.Database

/-- A key of `connection_handler`. -/
inductive Key where
  | num (n : Int64)
  | str (s : List UInt8)
deriving DecidableEq

/-- Whether `%w` matches a byte. -/
def isAlnum (c : UInt8) : Bool := (48 ≤ c && c ≤ 57) || (65 ≤ c && c ≤ 90) || (97 ≤ c && c ≤ 122)

def hashStr (str : List UInt8) : Int := ((str.filter isAlnum).map UInt8.toNat).sum

def hashNum (num : Int64) : Int := (num <<< 8).toInt

/-- The place of the database in the group, counted from zero. -/
def connectionHandler (ngroup : Nat) (key : Key) : Nat :=
  let hash : Int := match key with
    | .str s => hashStr s
    | .num n => hashNum n
  (hash % ngroup).toNat

/-- `mongodb.Account:safe_update({Account = account}, ...)`, which changes the first document that it finds. -/
def setPassword (account : Key) (password : String) : List (AccountDoc Key) → List (AccountDoc Key)
  | [] => []
  | doc :: docs => if doc.account = account then { doc with password } :: docs else doc :: setPassword account password docs

/-- The databases of the group. -/
abbrev Group := Nat → Collections Key

/-- A command that writes. -/
inductive Command where
  | changePassward (account : Key) (password : String)
  | cmdAccountCreate (id account : Key) (password nickname : String) (sex : Key)
deriving DecidableEq

namespace Group

variable (ngroup : Nat)

/-- `make_key`. -/
def makeKey (group : Group) (key : Key) : Collections Key := group (connectionHandler ngroup key)

def changePassward (group : Group) (account : Key) (password : String) : Group :=
  let mongodb := group.makeKey ngroup account
  Function.update group (connectionHandler ngroup account)
    { mongodb with account := setPassword account password mongodb.account }

def cmdAccountCreate (group : Group) (id account : Key) (password nickname : String) (sex : Key) : Group :=
  let mongodb := group.makeKey ngroup account
  Function.update group (connectionHandler ngroup account)
    { account := mongodb.account ++ [⟨id, account, password⟩]
      roleInfo := mongodb.roleInfo ++ [⟨id, nickname, sex⟩] }

def exec (group : Group) : Command → Group
  | .changePassward account password => group.changePassward ngroup account password
  | .cmdAccountCreate id account password nickname sex => group.cmdAccountCreate ngroup id account password nickname sex

def getUserId (group : Group) (account : Key) : Except Assertion (Option Key) :=
  (group.makeKey ngroup account).getUserId account

def authPassword (group : Group) (account : Key) (password : String) : Except Assertion (Option Key) :=
  (group.makeKey ngroup account).authPassword account password

def cmdAccountLoadInfo (group : Group) (id : Key) : Except Assertion (Option (RoleInfoDoc Key)) :=
  (group.makeKey ngroup id).cmdAccountLoadInfo id

end Group

/-! ### The documents of an account -/

/-- No document has the id. -/
structure IdUnused (group : Group) (id : Key) : Prop where
  doc : ∀ g, ∀ doc ∈ (group g).account, doc.id ≠ id
  role : ∀ g, ∀ role ∈ (group g).roleInfo, role.id ≠ id

/-- The role and the documents with its id are in one database. -/
structure Homed (group : Group) (place : Nat) (role : RoleInfoDoc Key) : Prop where
  doc : ∃ doc ∈ (group place).account, doc.id = role.id
  only : ∀ g, ∀ doc ∈ (group g).account, doc.id = role.id → g = place
  role : (group place).roleInfo.find? (fun r => r.id = role.id) = some role

namespace Command

/-- A command that does not create the id. -/
def SparesId (id : Key) : Command → Prop
  | .changePassward _ _ => True
  | .cmdAccountCreate id' _ _ _ _ => id' ≠ id

/-- A command that does not create the account number. -/
def SparesAccount (account : Key) : Command → Prop
  | .changePassward _ _ => True
  | .cmdAccountCreate _ account' _ _ _ => account' ≠ account

/-- The password of the account after a command. -/
def password (account : Key) (password : String) : Command → String
  | .changePassward account' password' => if account' = account then password' else password
  | .cmdAccountCreate _ _ _ _ _ => password

end Command

theorem mem_setPassword {account : Key} {password : String} {docs : List (AccountDoc Key)} {doc : AccountDoc Key}
    (h : doc ∈ setPassword account password docs) : ∃ old ∈ docs, old.id = doc.id := by
  induction docs with
  | nil => cases h
  | cons first docs ih =>
    rw [setPassword] at h
    split at h
    · rcases List.mem_cons.mp h with rfl | h
      · exact ⟨first, List.mem_cons_self, rfl⟩
      · exact ⟨doc, List.mem_cons_of_mem _ h, rfl⟩
    · rcases List.mem_cons.mp h with rfl | h
      · exact ⟨doc, List.mem_cons_self, rfl⟩
      · obtain ⟨old, hold, hsame⟩ := ih h
        exact ⟨old, List.mem_cons_of_mem _ hold, hsame⟩

theorem exists_mem_setPassword {account : Key} {password : String} {docs : List (AccountDoc Key)} {old : AccountDoc Key}
    (h : old ∈ docs) : ∃ doc ∈ setPassword account password docs, doc.id = old.id := by
  induction docs with
  | nil => cases h
  | cons first docs ih =>
    rw [setPassword]
    split
    · rcases List.mem_cons.mp h with rfl | h
      · exact ⟨_, List.mem_cons_self, rfl⟩
      · exact ⟨old, List.mem_cons_of_mem _ h, rfl⟩
    · rcases List.mem_cons.mp h with rfl | h
      · exact ⟨_, List.mem_cons_self, rfl⟩
      · obtain ⟨doc, hdoc, hsame⟩ := ih h
        exact ⟨doc, List.mem_cons_of_mem _ hdoc, hsame⟩

theorem filter_setPassword_of_ne {account account' : Key} (hne : account' ≠ account) (password : String)
    (docs : List (AccountDoc Key)) :
    (setPassword account' password docs).filter (fun doc => doc.account = account) =
      docs.filter fun doc => doc.account = account := by
  induction docs with
  | nil => rfl
  | cons doc docs ih =>
    rw [setPassword]
    split
    · rename_i hdoc
      rw [List.filter_cons_of_neg (by simpa [hdoc] using hne), List.filter_cons_of_neg (by simpa [hdoc] using hne)]
    · rw [List.filter_cons, List.filter_cons, ih]

/-- A change of the password of the account. -/
theorem filter_setPassword_self (account : Key) (password : String) (docs : List (AccountDoc Key)) :
    (setPassword account password docs).filter (fun doc => doc.account = account) =
      setPassword account password (docs.filter fun doc => doc.account = account) := by
  induction docs with
  | nil => rfl
  | cons doc docs ih =>
    by_cases hdoc : doc.account = account
    · rw [setPassword, if_pos hdoc, List.filter_cons_of_pos (by simpa using hdoc),
        List.filter_cons_of_pos (by simpa using hdoc), setPassword, if_pos hdoc]
    · rw [setPassword, if_neg hdoc, List.filter_cons_of_neg (by simpa using hdoc),
        List.filter_cons_of_neg (by simpa using hdoc), ih]

@[simp] theorem length_setPassword (account : Key) (password : String) (docs : List (AccountDoc Key)) :
    (setPassword account password docs).length = docs.length := by
  induction docs with
  | nil => rfl
  | cons doc docs ih =>
    rw [setPassword]
    split
    · rfl
    · rw [List.length_cons, ih, List.length_cons]

/-! ### The database of the account number -/

section

variable {ngroup : Nat} {group : Group}

namespace Group

/-- The documents of an account number in its database. -/
def docsOf (ngroup : Nat) (group : Group) (account : Key) : List (AccountDoc Key) :=
  (group.makeKey ngroup account).findAccount account

theorem docsOf_changePassward (account account' : Key) (password : String) :
    (group.changePassward ngroup account' password).docsOf ngroup account =
      if account' = account then setPassword account password (group.docsOf ngroup account)
      else group.docsOf ngroup account := by
  by_cases hplace : connectionHandler ngroup account = connectionHandler ngroup account'
  · split
    · rename_i haccount
      subst haccount
      simpa [docsOf, makeKey, changePassward, Collections.findAccount] using filter_setPassword_self account' password _
    · rename_i haccount
      simpa [docsOf, makeKey, changePassward, Collections.findAccount, hplace] using
        filter_setPassword_of_ne haccount password _
  · have haccount : account' ≠ account := fun heq => hplace (heq ▸ rfl)
    simp [docsOf, makeKey, changePassward, hplace, haccount]

theorem docsOf_cmdAccountCreate (id account account' : Key) (password nickname : String) (sex : Key) :
    (group.cmdAccountCreate ngroup id account' password nickname sex).docsOf ngroup account =
      if account' = account then group.docsOf ngroup account ++ [⟨id, account, password⟩]
      else group.docsOf ngroup account := by
  by_cases hplace : connectionHandler ngroup account = connectionHandler ngroup account'
  · split
    · rename_i haccount
      subst haccount
      simp [docsOf, makeKey, cmdAccountCreate, Collections.findAccount]
    · rename_i haccount
      simp [docsOf, makeKey, cmdAccountCreate, Collections.findAccount, hplace, haccount]
  · have haccount : account' ≠ account := fun heq => hplace (heq ▸ rfl)
    simp [docsOf, makeKey, cmdAccountCreate, hplace, haccount]

theorem length_docsOf_le_exec (command : Command) (account : Key) :
    (group.docsOf ngroup account).length ≤ ((group.exec ngroup command).docsOf ngroup account).length := by
  cases command with
  | changePassward account' password =>
    rw [exec, docsOf_changePassward]
    split <;> simp
  | cmdAccountCreate id account' password nickname sex =>
    rw [exec, docsOf_cmdAccountCreate]
    split <;> simp

theorem length_docsOf_le_run (commands : List Command) (account : Key) :
    (group.docsOf ngroup account).length ≤
      ((commands.foldl (exec ngroup) group).docsOf ngroup account).length := by
  induction commands generalizing group with
  | nil => exact Nat.le_refl _
  | cons command commands ih => exact Nat.le_trans (length_docsOf_le_exec command account) ih

theorem docsOf_run {id account : Key} {password : String} {commands : List Command}
    (hdoc : group.docsOf ngroup account = [⟨id, account, password⟩])
    (hspares : ∀ command ∈ commands, command.SparesAccount account) :
    (commands.foldl (exec ngroup) group).docsOf ngroup account =
      [⟨id, account, commands.foldl (Command.password account) password⟩] := by
  induction commands generalizing group password with
  | nil => exact hdoc
  | cons command commands ih =>
    refine ih ?_ fun c hc => hspares c (List.mem_cons_of_mem _ hc)
    have hspare := hspares command List.mem_cons_self
    cases command with
    | changePassward account' password' =>
      rw [exec, docsOf_changePassward, hdoc, Command.password]
      split <;> simp [setPassword]
    | cmdAccountCreate id' account' password' nickname sex =>
      rw [exec, docsOf_cmdAccountCreate, if_neg hspare, hdoc, Command.password]

theorem length_docsOf_lt_run {account : Key} {command : Command} {commands : List Command} (hmem : command ∈ commands)
    (hcreates : ¬ command.SparesAccount account) :
    (group.docsOf ngroup account).length <
      ((commands.foldl (exec ngroup) group).docsOf ngroup account).length := by
  induction commands generalizing group with
  | nil => cases hmem
  | cons first commands ih =>
    rcases List.mem_cons.mp hmem with rfl | hmem
    · refine Nat.lt_of_lt_of_le ?_ (length_docsOf_le_run commands account)
      cases command with
      | changePassward account' password => exact absurd trivial hcreates
      | cmdAccountCreate id account' password nickname sex =>
        rw [exec, docsOf_cmdAccountCreate, if_pos (not_not.mp hcreates)]
        simp
    · exact Nat.lt_of_le_of_lt (length_docsOf_le_exec first account) (ih hmem)

theorem getUserId_of_docsOf {id account : Key} {password : String}
    (hdoc : group.docsOf ngroup account = [⟨id, account, password⟩]) :
    group.getUserId ngroup account = .ok (some id) := by
  rw [docsOf] at hdoc
  simp [getUserId, Collections.getUserId, hdoc]

theorem authPassword_of_docsOf {id account : Key} {password : String}
    (hdoc : group.docsOf ngroup account = [⟨id, account, password⟩]) (given : String) :
    group.authPassword ngroup account given = if given = password then .ok (some id) else .ok none := by
  rw [docsOf] at hdoc
  by_cases hgiven : given = password
  · simp [authPassword, Collections.authPassword, hdoc, hgiven]
  · simp [authPassword, Collections.authPassword, hdoc, hgiven, Ne.symm hgiven]

/-- `assert(ret:count() == 1)` fails for two documents. -/
theorem getUserId_of_two {account : Key} (htwo : 2 ≤ (group.docsOf ngroup account).length) :
    group.getUserId ngroup account = .error .count := by
  rw [docsOf] at htwo
  rw [getUserId, Collections.getUserId]
  split
  · rename_i hnil
    simp [hnil] at htwo
  · rename_i ac rest hcons
    rw [hcons] at htwo
    rw [if_neg (by omega)]

end Group

/-! ### The database of the id -/

namespace Group

theorem exec_cases (ngroup : Nat) (group : Group) (command : Command) (g : Nat) :
    (group.exec ngroup command) g = group g ∨
      (∃ account password, command = .changePassward account password ∧ (group.exec ngroup command) g =
        { group g with account := setPassword account password (group g).account }) ∨
      ∃ id account password nickname sex, command = .cmdAccountCreate id account password nickname sex ∧
        (group.exec ngroup command) g =
          { account := (group g).account ++ [⟨id, account, password⟩]
            roleInfo := (group g).roleInfo ++ [⟨id, nickname, sex⟩] } := by
  cases command with
  | changePassward account password =>
    by_cases hplace : g = connectionHandler ngroup account
    · subst hplace
      exact .inr (.inl ⟨account, password, rfl, Function.update_self _ _ _⟩)
    · exact .inl (Function.update_of_ne hplace _ _)
  | cmdAccountCreate id account password nickname sex =>
    by_cases hplace : g = connectionHandler ngroup account
    · subst hplace
      exact .inr (.inr ⟨id, account, password, nickname, sex, rfl, Function.update_self _ _ _⟩)
    · exact .inl (Function.update_of_ne hplace _ _)

theorem mem_account_exec {command : Command} {id : Key} (hspares : command.SparesId id) {g : Nat} {doc : AccountDoc Key}
    (hmem : doc ∈ ((group.exec ngroup command) g).account) (hid : doc.id = id) :
    ∃ old ∈ (group g).account, old.id = id := by
  obtain heq | ⟨account, password, rfl, heq⟩ | ⟨id', account, password, nickname, sex, rfl, heq⟩ :=
    exec_cases ngroup group command g
  · rw [heq] at hmem
    exact ⟨doc, hmem, hid⟩
  · rw [heq] at hmem
    obtain ⟨old, hold, hsame⟩ := mem_setPassword hmem
    exact ⟨old, hold, hsame.trans hid⟩
  · rw [heq] at hmem
    rcases List.mem_append.mp hmem with hmem | hmem
    · exact ⟨doc, hmem, hid⟩
    · rw [List.mem_singleton.mp hmem] at hid
      exact absurd hid hspares

theorem exists_mem_account_exec (command : Command) {g : Nat} {old : AccountDoc Key} (hmem : old ∈ (group g).account) :
    ∃ doc ∈ ((group.exec ngroup command) g).account, doc.id = old.id := by
  obtain heq | ⟨account, password, -, heq⟩ | ⟨id, account, password, nickname, sex, -, heq⟩ :=
    exec_cases ngroup group command g
  · rw [heq]
    exact ⟨old, hmem, rfl⟩
  · rw [heq]
    exact exists_mem_setPassword hmem
  · rw [heq]
    exact ⟨old, List.mem_append_left _ hmem, rfl⟩

theorem find_roleInfo_exec (command : Command) {g : Nat} {p : RoleInfoDoc Key → Bool} {role : RoleInfoDoc Key}
    (hfind : (group g).roleInfo.find? p = some role) :
    ((group.exec ngroup command) g).roleInfo.find? p = some role := by
  obtain heq | ⟨account, password, -, heq⟩ | ⟨id, account, password, nickname, sex, -, heq⟩ :=
    exec_cases ngroup group command g
  · rw [heq, hfind]
  · rw [heq, hfind]
  · rw [heq, List.find?_append, hfind, Option.some_or]

end Group

theorem Homed.exec {place : Nat} {role : RoleInfoDoc Key} {command : Command} (h : Homed group place role)
    (hspares : command.SparesId role.id) : Homed (group.exec ngroup command) place role where
  doc := by
    obtain ⟨old, hold, hid⟩ := h.doc
    obtain ⟨doc, hdoc, hsame⟩ := Group.exists_mem_account_exec command hold
    exact ⟨doc, hdoc, hsame.trans hid⟩
  only g doc hdoc hid := by
    obtain ⟨old, hold, hsame⟩ := Group.mem_account_exec hspares hdoc hid
    exact h.only g old hold hsame
  role := Group.find_roleInfo_exec command h.role

theorem Homed.run {place : Nat} {role : RoleInfoDoc Key} {commands : List Command} (h : Homed group place role)
    (hspares : ∀ command ∈ commands, command.SparesId role.id) :
    Homed (commands.foldl (Group.exec ngroup) group) place role := by
  induction commands generalizing group with
  | nil => exact h
  | cons command commands ih =>
    exact ih (h.exec (hspares command List.mem_cons_self)) fun c hc => hspares c (List.mem_cons_of_mem _ hc)

/-- A new account has its documents in the database of its number. -/
theorem homed_cmdAccountCreate {id : Key} (hunused : IdUnused group id) (account : Key) (password nickname : String)
    (sex : Key) :
    Homed (group.cmdAccountCreate ngroup id account password nickname sex) (connectionHandler ngroup account)
      ⟨id, nickname, sex⟩ where
  doc := by
    rw [Group.cmdAccountCreate, Function.update_self]
    exact ⟨_, List.mem_append_right _ List.mem_cons_self, rfl⟩
  only g doc hdoc hid := by
    by_contra hplace
    rw [Group.cmdAccountCreate, Function.update_of_ne hplace] at hdoc
    exact hunused.doc g doc hdoc hid
  role := by
    have hnone : (group.makeKey ngroup account).roleInfo.find? (fun r => r.id = id) = none :=
      List.find?_eq_none.mpr fun r hr => by simpa using hunused.role _ r hr
    rw [Group.cmdAccountCreate, Function.update_self]
    exact List.find?_append.trans (by rw [hnone]; simp)

/-- `cmd_account_loadInfo` looks in the database of the id. -/
theorem Homed.cmdAccountLoadInfo {place : Nat} {role : RoleInfoDoc Key} (h : Homed group place role) :
    group.cmdAccountLoadInfo ngroup role.id =
      if connectionHandler ngroup role.id = place then .ok (some role) else .ok none := by
  rw [Group.cmdAccountLoadInfo, Collections.cmdAccountLoadInfo, Group.makeKey]
  split
  · rename_i hnone
    rw [if_neg]
    rintro rfl
    obtain ⟨doc, hdoc, hid⟩ := h.doc
    exact List.find?_eq_none.mp hnone doc hdoc (by simpa using hid)
  · rename_i doc hdoc
    have hid : doc.id = role.id := by simpa using List.find?_some hdoc
    have hplace := h.only _ doc (List.mem_of_find?_eq_some hdoc) hid
    rw [if_pos hplace, hplace, h.role]

/-! ### What the reads find -/

/-- What the reads should find of an account that has the password. -/
structure Found (ngroup : Nat) (group : Group) (account : Key) (password : String) (role : RoleInfoDoc Key) : Prop where
  loadInfo : group.cmdAccountLoadInfo ngroup role.id = .ok (some role)
  userId : group.getUserId ngroup account = .ok (some role.id)
  auth : ∀ given, group.authPassword ngroup account given = .ok (some role.id) ↔ given = password

theorem found_of_docsOf {account : Key} {password : String} {role : RoleInfoDoc Key}
    (hdoc : group.docsOf ngroup account = [⟨role.id, account, password⟩])
    (hhomed : Homed group (connectionHandler ngroup account) role)
    (hplace : connectionHandler ngroup role.id = connectionHandler ngroup account) :
    Found ngroup group account password role where
  loadInfo := by rw [hhomed.cmdAccountLoadInfo, if_pos hplace]
  userId := Group.getUserId_of_docsOf hdoc
  auth given := by
    rw [Group.authPassword_of_docsOf hdoc]
    split <;> simp [*]

theorem Found.length_docsOf_lt {account : Key} {password : String} {role : RoleInfoDoc Key}
    (h : Found ngroup group account password role) : (group.docsOf ngroup account).length < 2 := by
  by_contra htwo
  have hid := h.userId
  rw [Group.getUserId_of_two (Nat.le_of_not_lt htwo)] at hid
  cases hid

end

/-- **After `cmd_account_create`, and any later commands, the reads find the account exactly when its number belongs to
no other account and its id leads to the same database as its number.** The id is one that no other account has. -/
theorem found_iff_same_database (ngroup : Nat) (group : Group) (id : Key) (hunused : IdUnused group id)
    (later : List Command) (hlater : ∀ command ∈ later, command.SparesId id) (account : Key) (password nickname : String)
    (sex : Key) :
    Found ngroup (later.foldl (Group.exec ngroup) (group.cmdAccountCreate ngroup id account password nickname sex))
        account (later.foldl (Command.password account) password) ⟨id, nickname, sex⟩ ↔
      (group.docsOf ngroup account = [] ∧ ∀ command ∈ later, command.SparesAccount account) ∧
        connectionHandler ngroup id = connectionHandler ngroup account := by
  obtain ⟨created, hcreate⟩ : ∃ created, created = group.cmdAccountCreate ngroup id account password nickname sex :=
    ⟨_, rfl⟩
  have hdocs : created.docsOf ngroup account = group.docsOf ngroup account ++ [⟨id, account, password⟩] := by
    rw [hcreate, Group.docsOf_cmdAccountCreate, if_pos rfl]
  have hhomed : Homed (later.foldl (Group.exec ngroup) created) (connectionHandler ngroup account)
      ⟨id, nickname, sex⟩ := by
    rw [hcreate]
    exact (homed_cmdAccountCreate hunused account password nickname sex).run hlater
  rw [← hcreate]
  constructor
  · intro hfound
    have hlen := hfound.length_docsOf_lt
    have hcreated : (created.docsOf ngroup account).length = (group.docsOf ngroup account).length + 1 := by
      rw [hdocs, List.length_append, List.length_singleton]
    refine ⟨⟨?_, ?_⟩, ?_⟩
    · have hle : (created.docsOf ngroup account).length ≤ _ := Group.length_docsOf_le_run later account
      exact List.eq_nil_of_length_eq_zero (by omega)
    · intro command hmem
      by_contra hcreates
      have hlt : (created.docsOf ngroup account).length < _ := Group.length_docsOf_lt_run hmem hcreates
      omega
    · by_contra hplace
      have hload := hfound.loadInfo
      rw [hhomed.cmdAccountLoadInfo, if_neg hplace] at hload
      cases hload
  · rintro ⟨⟨hnone, hspares⟩, hplace⟩
    rw [hnone, List.nil_append] at hdocs
    exact found_of_docsOf (Group.docsOf_run hdocs hspares) hhomed hplace

/-- Two databases, and the password is changed. -/
theorem found_iff_same_database_two :
    Found 2 (Group.exec 2 (Group.cmdAccountCreate 2 (fun _ => {}) (.num 1) (.num 2) "old" "nick" (.num 0))
      (.changePassward (.num 2) "new")) (.num 2) "new" ⟨.num 1, "nick", .num 0⟩ :=
  (found_iff_same_database 2 (fun _ => {}) (.num 1) ⟨by simp, by simp⟩ [.changePassward (.num 2) "new"]
    (by simp [Command.SparesId]) (.num 2) "old" "nick" (.num 0)).mpr
    ⟨⟨by decide, by simp [Command.SparesAccount]⟩, by decide⟩

/-- Three databases: the role is written to the third one and looked for in the second one. -/
theorem not_found_three :
    ¬ Found 3 (Group.cmdAccountCreate 3 (fun _ => {}) (.num 1) (.num 2) "password" "nick" (.num 0)) (.num 2) "password"
      ⟨.num 1, "nick", .num 0⟩ := by
  intro hfound
  exact absurd hfound.loadInfo (by decide)

end SkynetServer.Database
