import SkynetServer.Database.Account
import SkynetServer.Lib.Run
import SkynetServer.Lib.Table

/-!
# Creating accounts

`creatAccount` of `web_slave.lua` runs once for each request, in any of the slaves, and is suspended at every call to
the database and to the SMS service. The state is that of the databases and of the requests; an event lets one call of
one request happen. `connection` is `connection_handler`, which chooses a database by a number, and `stringLen` is
`helper.get_string_len` of the text of a number. A request that passes its existence check while another one for the
same account has passed its own and not yet inserted makes a second document, and an insert of the role that fails
leaves an account without one.
-/

namespace SkynetServer.Web

open Database Lib

/-- The query of a request; `none` where it is absent or where `tonumber` gives nothing. -/
structure Args (Key : Type) where
  account : Option Key
  password : Option String
  nickname : Option String
  authCode : Option String
  sex : Option Key

/-- Arguments that have passed the checks. -/
structure NewAccount (Key : Type) where
  account : Key
  password : String
  nickname : String
  sex : Key

/-- Where a request is: suspended in the query or in the count of `GetUserId`, in the SMS call, in one of the inserts
of `cmd_account_create`; or at its end. -/
inductive Stage (Key : Type) where
  | finding (new : NewAccount Key)
  | counting (new : NewAccount Key)
  | verifying (new : NewAccount Key)
  | inserting (id : Key) (new : NewAccount Key)
  | linking (id : Key) (new : NewAccount Key)
  | answered (code : Int)
  | broken

structure Site (Key : Type) where
  group : Nat → Collections Key := fun _ => {}
  requests : Nat → Option (Stage Key) := fun _ => none

/-- One call of one request. `verify` carries the id that `uuid.gen` returns after the SMS answer, or nothing when the
answer cannot be decoded; an insert carries whether it succeeds. -/
inductive Event (Key : Type) where
  | request (r : Nat) (args : Args Key)
  | find (r : Nat)
  | count (r : Nat)
  | verify (r : Nat) (id : Option Key)
  | insertAccount (r : Nat) (ok : Bool)
  | insertRole (r : Nat) (ok : Bool)

variable {Key : Type} (connection stringLen : Key → Nat)

/-- The checks before the first call. -/
def creatAccount (args : Args Key) : Stage Key :=
  match args.account, args.password, args.nickname, args.authCode, args.sex with
  | some account, some password, some nickname, some _, some sex =>
    if stringLen account ≠ 11 then .answered (-2)
    else if password.utf8ByteSize < 6 ∨ password.utf8ByteSize > 13 then .answered (-2)
    else if nickname.utf8ByteSize < 6 ∨ nickname.utf8ByteSize > 12 then .answered (-2)
    else .finding ⟨account, password, nickname, sex⟩
  | _, _, _, _, _ => .answered (-2)

def Site.goto (s : Site Key) (r : Nat) (stage : Stage Key) : Site Key :=
  { s with requests := Function.update s.requests r (some stage) }

/-- `make_key (account)`. -/
def Site.makeKey (s : Site Key) (account : Key) : Collections Key := s.group (connection account)

def Site.insert (s : Site Key) (account : Key) (db : Collections Key) : Site Key :=
  { s with group := Function.update s.group (connection account) db }

def step [DecidableEq Key] (s : Site Key) : Event Key → Option (Site Key)
  | .request r args =>
    match s.requests r with
    | none => some (s.goto r (creatAccount stringLen args))
    | some _ => none
  | .find r =>
    match s.requests r with
    | some (.finding new) =>
      if (s.makeKey connection new.account).findAccount new.account = [] then some (s.goto r (.verifying new))
      else some (s.goto r (.counting new))
    | _ => none
  | .count r =>
    match s.requests r with
    | some (.counting new) =>
      -- a failed assertion makes the reply empty, like that for an account that does not exist
      if ((s.makeKey connection new.account).findAccount new.account).length = 1 then some (s.goto r (.answered (-3)))
      else some (s.goto r (.verifying new))
    | _ => none
  | .verify r id =>
    match s.requests r, id with
    | some (.verifying new), some id => some (s.goto r (.inserting id new))
    | some (.verifying _), none => some (s.goto r .broken)
    | _, _ => none
  | .insertAccount r ok =>
    match s.requests r, ok with
    | some (.inserting id new), true =>
      let db := s.makeKey connection new.account
      some ((s.insert connection new.account { db with
        account := db.account ++ [⟨id, new.account, new.password⟩] }).goto r (.linking id new))
    | some (.inserting _ _), false => some (s.goto r (.answered (-4)))
    | _, _ => none
  | .insertRole r ok =>
    match s.requests r, ok with
    | some (.linking id new), true =>
      let db := s.makeKey connection new.account
      some ((s.insert connection new.account { db with
        roleInfo := db.roleInfo ++ [⟨id, new.nickname, new.sex⟩] }).goto r (.answered 0))
    | some (.linking _ _), false => some (s.goto r (.answered (-4)))
    | _, _ => none

/-- No request is in progress. -/
def Site.Quiet (s : Site Key) : Prop :=
  ∀ r stage, s.requests r = some stage → stage = .broken ∨ ∃ code, stage = .answered code

/-- The tables are consistent in each database, and the documents of an account are all in one. -/
structure Site.Consistent (s : Site Key) : Prop where
  each : ∀ g, (s.group g).Consistent
  together : ∀ g g' doc doc', doc ∈ (s.group g).account → doc' ∈ (s.group g').account →
    doc.account = doc'.account → g = g'

/-- Between the existence check and the insert of the account. -/
def Stage.Pending (new : NewAccount Key) : Stage Key → Prop
  | .verifying new' => new' = new
  | .inserting _ new' => new' = new
  | _ => False

/-- The condition on the state before an event: no request makes its existence check, and finds nothing, while another
one for the same account is between its check and its insert; and no insert of a role fails. -/
def Ok [DecidableEq Key] (s : Site Key) : Event Key → Prop
  | .find r => ∀ new, s.requests r = some (.finding new) →
    (s.makeKey connection new.account).findAccount new.account = [] →
    ∀ r' stage new', s.requests r' = some stage → stage.Pending new' → new'.account ≠ new.account
  | .insertRole _ ok => ok = true
  | _ => True

/-! ### The invariant -/

structure Inv (s : Site Key) : Prop where
  nodup : ∀ g, ((s.group g).account.map (·.account)).Nodup
  home : ∀ g, ∀ doc ∈ (s.group g).account, connection doc.account = g
  /-- Of the requests for one account, at most one is between its check and its insert. -/
  single : ∀ r r' stage stage' new new', s.requests r = some stage → s.requests r' = some stage' →
    stage.Pending new → stage'.Pending new' → new.account = new'.account → r = r'
  absent : ∀ r stage new, s.requests r = some stage → stage.Pending new →
    ∀ doc ∈ (s.makeKey connection new.account).account, doc.account ≠ new.account
  role : ∀ g, ∀ doc ∈ (s.group g).account, (∃ role ∈ (s.group g).roleInfo, role.id = doc.id) ∨
    ∃ r new, s.requests r = some (.linking doc.id new) ∧ connection new.account = g
  counted : ∀ r new, s.requests r = some (.counting new) →
    ∃ doc ∈ (s.makeKey connection new.account).account, doc.account = new.account

theorem inv_init : Inv connection ({} : Site Key) where
  nodup := fun _ => List.nodup_nil
  home := fun _ _ h => by cases h
  single := fun _ _ _ _ _ _ h => by cases h
  absent := fun _ _ _ h => by cases h
  role := fun _ _ h => by cases h
  counted := fun _ _ h => by cases h

variable {connection}

/-- A request that is not linking goes on to a stage that is not pending, or stays pending for the same account. -/
theorem Inv.goto {s : Site Key} (h : Inv connection s) {r : Nat} {stage : Stage Key}
    (hlinking : ∀ id new, s.requests r ≠ some (.linking id new))
    (hpending : ∀ new, stage.Pending new → ∃ old, s.requests r = some old ∧ old.Pending new)
    (hcounting : ∀ new, stage = .counting new →
      ∃ doc ∈ (s.makeKey connection new.account).account, doc.account = new.account) :
    Inv connection (s.goto r stage) := by
  have hback : ∀ r' stage' new, (s.goto r stage).requests r' = some stage' → stage'.Pending new →
      ∃ old, s.requests r' = some old ∧ old.Pending new := by
    intro r' stage' new hr' hp
    rcases update_some_cases hr' with ⟨rfl, rfl⟩ | ⟨-, hr'⟩
    · exact hpending new hp
    · exact ⟨stage', hr', hp⟩
  refine ⟨h.nodup, h.home, fun a b sa sb na nb ha hb hpa hpb heq => ?_, fun a sa na ha hpa => ?_,
    fun g doc hdoc => (h.role g doc hdoc).imp_right ?_, fun a na ha => ?_⟩
  · obtain ⟨oa, hoa, hpa⟩ := hback a sa na ha hpa
    obtain ⟨ob, hob, hpb⟩ := hback b sb nb hb hpb
    exact h.single a b oa ob na nb hoa hob hpa hpb heq
  · obtain ⟨oa, hoa, hpa⟩ := hback a sa na ha hpa
    exact h.absent a oa na hoa hpa
  · rintro ⟨r', new, hr', heq⟩
    have hne : r' ≠ r := by
      rintro rfl
      exact hlinking _ _ hr'
    exact ⟨r', new, (Function.update_of_ne hne _ _).trans hr', heq⟩
  · rcases update_some_cases ha with ⟨-, heq⟩ | ⟨-, ha⟩
    · exact hcounting na heq.symm
    · exact h.counted a na ha

/-- A request that has found nothing becomes the only pending one for its account. -/
theorem Inv.verify [DecidableEq Key] {s : Site Key} (h : Inv connection s) {r : Nat} {new : NewAccount Key}
    (hlinking : ∀ id new, s.requests r ≠ some (.linking id new))
    (hnothing : (s.makeKey connection new.account).findAccount new.account = [])
    (hothers : ∀ r' stage new', s.requests r' = some stage → stage.Pending new' → new'.account ≠ new.account) :
    Inv connection (s.goto r (.verifying new)) := by
  have hcases : ∀ r' stage' new', (s.goto r (.verifying new)).requests r' = some stage' → stage'.Pending new' →
      (r' = r ∧ new' = new) ∨ (r' ≠ r ∧ s.requests r' = some stage') := by
    intro r' stage' new' hr' hp
    rcases update_some_cases hr' with ⟨rfl, rfl⟩ | hr'
    · exact .inl ⟨rfl, Eq.symm hp⟩
    · exact .inr hr'
  refine ⟨h.nodup, h.home, fun a b sa sb na nb ha hb hpa hpb heq => ?_, fun a sa na ha hpa => ?_,
    fun g doc hdoc => (h.role g doc hdoc).imp_right ?_, fun a na ha => ?_⟩
  · rcases hcases a sa na ha hpa with ⟨har, hna⟩ | ⟨-, ha'⟩ <;>
      rcases hcases b sb nb hb hpb with ⟨hbr, hnb⟩ | ⟨-, hb'⟩
    · exact har.trans hbr.symm
    · exact absurd (hna ▸ heq.symm) (hothers b sb nb hb' hpb)
    · exact absurd (hnb ▸ heq) (hothers a sa na ha' hpa)
    · exact h.single a b sa sb na nb ha' hb' hpa hpb heq
  · rcases hcases a sa na ha hpa with ⟨rfl, rfl⟩ | ⟨-, ha⟩
    · intro doc hdoc heq
      have hmem : doc ∈ (s.makeKey connection na.account).findAccount na.account :=
        List.mem_filter.mpr ⟨hdoc, by simpa using heq⟩
      rw [hnothing] at hmem
      cases hmem
    · exact h.absent a sa na ha hpa
  · rintro ⟨r', new', hr', heq⟩
    have hne : r' ≠ r := by
      rintro rfl
      exact hlinking _ _ hr'
    exact ⟨r', new', (Function.update_of_ne hne _ _).trans hr', heq⟩
  · rcases update_some_cases ha with ⟨-, heq⟩ | ⟨-, ha⟩
    · cases heq
    · exact h.counted a na ha

theorem group_insert (s : Site Key) (account : Key) (db : Collections Key) (g : Nat) :
    (s.insert connection account db).group g = if g = connection account then db else s.group g :=
  Function.update_apply _ _ _ _

/-- The account is inserted; its request, which was the only pending one, still owes the role. -/
theorem Inv.insertAccount {s : Site Key} (h : Inv connection s) {r : Nat} {id : Key} {new : NewAccount Key}
    (hr : s.requests r = some (.inserting id new)) :
    Inv connection ((s.insert connection new.account { s.makeKey connection new.account with
      account := (s.makeKey connection new.account).account ++ [⟨id, new.account, new.password⟩] }).goto r
        (.linking id new)) := by
  have hpending : (Stage.inserting id new).Pending new := rfl
  have habsent := h.absent r _ new hr hpending
  have hdocs : ∀ g doc, doc ∈ ((s.insert connection new.account { s.makeKey connection new.account with
      account := (s.makeKey connection new.account).account ++ [⟨id, new.account, new.password⟩] }).group g).account ↔
      doc ∈ (s.group g).account ∨ (g = connection new.account ∧ doc = ⟨id, new.account, new.password⟩) := by
    intro g doc
    rw [group_insert]
    by_cases hg : g = connection new.account
    · subst hg
      simp [Site.makeKey]
    · simp [hg]
  have hback : ∀ r' stage' new', Function.update s.requests r (some (.linking id new)) r' = some stage' →
      stage'.Pending new' → r' ≠ r ∧ s.requests r' = some stage' := by
    intro r' stage' new' hr' hp
    rcases update_some_cases hr' with ⟨rfl, rfl⟩ | hr'
    · exact hp.elim
    · exact hr'
  refine { nodup := fun g => ?nodup
           home := fun g doc hdoc => ?home
           single := fun a b sa sb na nb ha hb hpa hpb heq => ?single
           absent := fun a sa na ha hpa doc hdoc => ?absent
           role := fun g doc hdoc => ?role
           counted := fun a na ha => ?counted }
  case nodup =>
    change (((s.insert connection new.account _).group g).account.map _).Nodup
    rw [group_insert]
    by_cases hg : g = connection new.account
    · rw [if_pos hg, List.map_append]
      refine List.nodup_append'.mpr ⟨h.nodup _, by simp, ?_⟩
      simpa using habsent
    · rw [if_neg hg]
      exact h.nodup g
  case home =>
    rcases (hdocs g doc).mp hdoc with hdoc | ⟨rfl, rfl⟩
    · exact h.home g doc hdoc
    · rfl
  case single =>
    exact h.single a b sa sb na nb (hback a sa na ha hpa).2 (hback b sb nb hb hpb).2 hpa hpb heq
  case absent =>
    obtain ⟨hne, ha'⟩ := hback a sa na ha hpa
    rcases (hdocs _ doc).mp hdoc with hdoc | ⟨-, rfl⟩
    · exact h.absent a sa na ha' hpa doc hdoc
    · intro heq
      exact hne (h.single a r sa _ na new ha' hr hpa hpending heq.symm)
  case role =>
    rcases (hdocs g doc).mp hdoc with hdoc | ⟨rfl, rfl⟩
    · refine (h.role g doc hdoc).imp ?_ ?_
      · rintro ⟨role, hrole, heq⟩
        refine ⟨role, ?_, heq⟩
        change role ∈ ((s.insert connection new.account _).group g).roleInfo
        rw [group_insert]
        by_cases hg : g = connection new.account
        · subst hg
          rw [if_pos rfl]
          exact hrole
        · rw [if_neg hg]
          exact hrole
      · rintro ⟨r', new', hr', heq⟩
        have hne : r' ≠ r := by
          rintro rfl
          rw [hr] at hr'
          cases hr'
        exact ⟨r', new', (Function.update_of_ne hne _ _).trans hr', heq⟩
    · exact .inr ⟨r, new, Function.update_self _ _ _, rfl⟩
  case counted =>
    rcases update_some_cases ha with ⟨-, heq⟩ | ⟨-, ha⟩
    · cases heq
    · obtain ⟨doc, hdoc, heq⟩ := h.counted a na ha
      exact ⟨doc, (hdocs _ doc).mpr (.inl hdoc), heq⟩

theorem Inv.insertRole {s : Site Key} (h : Inv connection s) {r : Nat} {id : Key} {new : NewAccount Key}
    (hr : s.requests r = some (.linking id new)) :
    Inv connection ((s.insert connection new.account { s.makeKey connection new.account with
      roleInfo := (s.makeKey connection new.account).roleInfo ++ [⟨id, new.nickname, new.sex⟩] }).goto r
        (.answered 0)) := by
  have hgroup : ∀ g, ((s.insert connection new.account { s.makeKey connection new.account with
      roleInfo := (s.makeKey connection new.account).roleInfo ++ [⟨id, new.nickname, new.sex⟩] }).group g).account =
        (s.group g).account ∧
      ∀ role, role ∈ ((s.insert connection new.account { s.makeKey connection new.account with
        roleInfo := (s.makeKey connection new.account).roleInfo ++ [⟨id, new.nickname, new.sex⟩] }).group g).roleInfo ↔
          role ∈ (s.group g).roleInfo ∨ (g = connection new.account ∧ role = ⟨id, new.nickname, new.sex⟩) := by
    intro g
    rw [group_insert]
    by_cases hg : g = connection new.account
    · subst hg
      simp [Site.makeKey]
    · simp [hg]
  have hback : ∀ r' stage' new', Function.update s.requests r (some (.answered 0)) r' = some stage' →
      stage'.Pending new' → s.requests r' = some stage' := by
    intro r' stage' new' hr' hp
    rcases update_some_cases hr' with ⟨rfl, rfl⟩ | ⟨-, hr'⟩
    · exact hp.elim
    · exact hr'
  refine { nodup := fun g => ?nodup
           home := fun g doc hdoc => ?home
           single := fun a b sa sb na nb ha hb hpa hpb heq => ?single
           absent := fun a sa na ha hpa doc hdoc => ?absent
           role := fun g doc hdoc => ?role
           counted := fun a na ha => ?counted }
  case nodup =>
    change (((s.insert connection new.account _).group g).account.map _).Nodup
    rw [(hgroup g).1]
    exact h.nodup g
  case home =>
    exact h.home g doc ((hgroup g).1 ▸ hdoc)
  case single =>
    exact h.single a b sa sb na nb (hback a sa na ha hpa) (hback b sb nb hb hpb) hpa hpb heq
  case absent =>
    exact h.absent a sa na (hback a sa na ha hpa) hpa doc ((hgroup _).1 ▸ hdoc)
  case role =>
    rcases h.role g doc ((hgroup g).1 ▸ hdoc) with ⟨role, hrole, heq⟩ | ⟨r', new', hr', heq⟩
    · exact .inl ⟨role, ((hgroup g).2 role).mpr (.inl hrole), heq⟩
    · by_cases hrr : r' = r
      · subst hrr
        rw [hr] at hr'
        cases hr'
        exact .inl ⟨_, ((hgroup g).2 _).mpr (.inr ⟨heq.symm, rfl⟩), rfl⟩
      · exact .inr ⟨r', new', (Function.update_of_ne hrr _ _).trans hr', heq⟩
  case counted =>
    rcases update_some_cases ha with ⟨-, heq⟩ | ⟨-, ha⟩
    · cases heq
    · obtain ⟨doc, hdoc, heq⟩ := h.counted a na ha
      exact ⟨doc, (hgroup _).1.symm ▸ hdoc, heq⟩

/-! ### Steps and runs -/

theorem creatAccount_cases (args : Args Key) :
    (∃ code, creatAccount stringLen args = .answered code) ∨ ∃ new, creatAccount stringLen args = .finding new := by
  unfold creatAccount
  split
  · split_ifs
    · exact .inl ⟨_, rfl⟩
    · exact .inl ⟨_, rfl⟩
    · exact .inl ⟨_, rfl⟩
    · exact .inr ⟨_, rfl⟩
  · exact .inl ⟨_, rfl⟩

theorem Inv.answer {s : Site Key} (h : Inv connection s) {r : Nat} (code : Int)
    (hlinking : ∀ id new, s.requests r ≠ some (.linking id new)) : Inv connection (s.goto r (.answered code)) :=
  h.goto hlinking (fun _ hp => hp.elim) fun _ heq => by cases heq

theorem inv_step [DecidableEq Key] (s : Site Key) (event : Event Key) (s' : Site Key) (h : Inv connection s)
    (hok : Ok connection s event) (hstep : step connection stringLen s event = some s') : Inv connection s' := by
  cases event with
  | request r args =>
    simp only [step] at hstep
    split at hstep
    · rename_i hr
      obtain rfl := Option.some.inj hstep
      have hlinking : ∀ id new, s.requests r ≠ some (.linking id new) := by simp [hr]
      rcases creatAccount_cases stringLen args with ⟨code, heq⟩ | ⟨new, heq⟩
      · rw [heq]
        exact h.answer code hlinking
      · rw [heq]
        exact h.goto hlinking (fun _ hp => hp.elim) fun _ heq => by cases heq
    · cases hstep
  | find r =>
    simp only [step] at hstep
    split at hstep
    · rename_i new hr
      have hlinking : ∀ id new, s.requests r ≠ some (.linking id new) := by simp [hr]
      split at hstep
      · rename_i hnothing
        obtain rfl := Option.some.inj hstep
        exact h.verify hlinking hnothing (hok new hr hnothing)
      · rename_i hsome
        obtain rfl := Option.some.inj hstep
        refine h.goto hlinking (fun _ hp => hp.elim) ?_
        rintro _ ⟨⟩
        obtain ⟨doc, hdoc⟩ := List.exists_mem_of_ne_nil _ hsome
        obtain ⟨hmem, heq⟩ := List.mem_filter.mp hdoc
        exact ⟨doc, hmem, by simpa using heq⟩
    · cases hstep
  | count r =>
    simp only [step] at hstep
    split at hstep
    · rename_i new hr
      have hlinking : ∀ id new, s.requests r ≠ some (.linking id new) := by simp [hr]
      split at hstep
      · obtain rfl := Option.some.inj hstep
        exact h.answer (-3) hlinking
      · -- the account was found, and no account has two documents
        rename_i hcount
        obtain ⟨doc, hdoc, heq⟩ := h.counted r new hr
        have hle := Collections.length_findAccount_le (h.nodup (connection new.account)) new.account
        have hpos : 0 < ((s.makeKey connection new.account).findAccount new.account).length :=
          List.length_pos_of_mem (List.mem_filter.mpr ⟨hdoc, by simpa using heq⟩)
        exact absurd (Nat.le_antisymm hle hpos) hcount
    · cases hstep
  | verify r id =>
    simp only [step] at hstep
    split at hstep
    · rename_i new id hr
      obtain rfl := Option.some.inj hstep
      exact h.goto (by simp [hr]) (fun new' hp => ⟨_, hr, hp⟩) fun _ heq => by cases heq
    · rename_i hr
      obtain rfl := Option.some.inj hstep
      exact h.goto (by simp [hr]) (fun _ hp => hp.elim) fun _ heq => by cases heq
    · cases hstep
  | insertAccount r ok =>
    simp only [step] at hstep
    split at hstep
    · rename_i id new hr
      obtain rfl := Option.some.inj hstep
      exact h.insertAccount hr
    · rename_i hr
      obtain rfl := Option.some.inj hstep
      exact h.answer (-4) (by simp [hr])
    · cases hstep
  | insertRole r ok =>
    have htrue : ok = true := hok
    simp only [step] at hstep
    split at hstep
    · rename_i id new hr
      obtain rfl := Option.some.inj hstep
      exact h.insertRole hr
    · cases htrue
    · cases hstep

theorem Inv.consistent {s : Site Key} (h : Inv connection s) (hquiet : s.Quiet) : s.Consistent := by
  refine ⟨fun g => ⟨h.nodup g, fun doc hdoc => ?_⟩, fun g g' doc doc' hdoc hdoc' heq => ?_⟩
  · rcases h.role g doc hdoc with hrole | ⟨r, new, hr, -⟩
    · exact hrole
    · rcases hquiet r _ hr with hend | ⟨code, hend⟩ <;> cases hend
  · rw [← h.home g doc hdoc, ← h.home g' doc' hdoc', heq]

/-- **Account creation.** In every run in which no request makes its existence check while another one for the same
account is between its check and its insert, and no insert of a role fails, the tables are consistent whenever no
request is in progress, and the commands that read them run into no assertion. -/
theorem consistent_of_quiet [DecidableEq Key] (connection stringLen : Key → Nat) (events : List (Event Key)) (s : Site Key)
    (hok : Along (step connection stringLen) (Ok connection) {} events)
    (hrun : run (step connection stringLen) {} events = some s) (hquiet : s.Quiet) :
    s.Consistent ∧ ∀ g key password, (∃ result, (s.group g).getUserId key = .ok result) ∧
      (∃ result, (s.group g).authPassword key password = .ok result) ∧
      ∃ result, (s.group g).cmdAccountLoadInfo key = .ok result := by
  have hconsistent := (run_invariant (inv_step stringLen) (inv_init connection) hok hrun).consistent hquiet
  exact ⟨hconsistent, fun g key password => (hconsistent.each g).commands key password⟩

/-- A phone number of eleven digits with a password and a name. -/
def sampleArgs (account : Nat) : Args Nat := ⟨some account, some "secret", some "player", some "1234", some 1⟩

/-- Two requests for one account, the second after the first has inserted. -/
def oneAfterTheOther : List (Event Nat) :=
  [.request 1 (sampleArgs 7), .find 1, .verify 1 (some 100), .insertAccount 1 true, .request 2 (sampleArgs 7), .find 2,
    .count 2, .insertRole 1 true]

theorem consistent_of_quiet_one_after_the_other :
    ∃ s, run (step (fun _ => 0) (fun _ => 11)) {} oneAfterTheOther = some s ∧ s.Consistent := by
  refine ⟨_, rfl, (consistent_of_quiet (fun _ => 0) (fun _ => 11) oneAfterTheOther _ ?_ rfl ?_).1⟩
  · refine along_cons trivial fun s₁ h₁ => ?_
    obtain rfl := Option.some.inj h₁
    refine along_cons (fun new hnew _ r' stage new' hr' hp => ?_) fun s₂ h₂ => ?_
    · rcases update_some_cases hr' with ⟨-, rfl⟩ | ⟨-, hr'⟩
      · exact hp.elim
      · cases hr'
    obtain rfl := Option.some.inj h₂
    refine along_cons trivial fun s₃ h₃ => ?_
    obtain rfl := Option.some.inj h₃
    refine along_cons trivial fun s₄ h₄ => ?_
    obtain rfl := Option.some.inj h₄
    refine along_cons trivial fun s₅ h₅ => ?_
    obtain rfl := Option.some.inj h₅
    refine along_cons (fun new hnew hnothing => ?_) fun s₆ h₆ => ?_
    · obtain rfl : (⟨7, "secret", "player", 1⟩ : NewAccount Nat) = new := by
        injection hnew with hnew
        injection hnew
      exact absurd hnothing (by decide)
    obtain rfl := Option.some.inj h₆
    refine along_cons trivial fun s₇ h₇ => ?_
    obtain rfl := Option.some.inj h₇
    exact along_cons rfl fun s₈ _ => along_nil _ _ _
  · intro r stage hr
    match r, hr with
    | 0, hr => cases hr
    | 1, hr =>
      obtain rfl := Option.some.inj hr
      exact .inr ⟨_, rfl⟩
    | 2, hr =>
      obtain rfl := Option.some.inj hr
      exact .inr ⟨_, rfl⟩
    | r + 3, hr => cases hr

/-- Two requests for one account, both of which check before either has inserted. -/
def sideBySide : List (Event Nat) :=
  [.request 1 (sampleArgs 7), .request 2 (sampleArgs 7), .find 1, .find 2, .verify 1 (some 100), .verify 2 (some 101),
    .insertAccount 1 true, .insertAccount 2 true, .insertRole 1 true, .insertRole 2 true]

theorem not_consistent_side_by_side :
    ¬ ∀ (events : List (Event Nat)) (s : Site Nat),
      run (step (fun _ => 0) (fun _ => 11)) {} events = some s → s.Quiet → s.Consistent := by
  intro hall
  have hconsistent := hall sideBySide _ rfl (fun r stage hr => by
    match r, hr with
    | 0, hr => cases hr
    | 1, hr =>
      obtain rfl := Option.some.inj hr
      exact .inr ⟨_, rfl⟩
    | 2, hr =>
      obtain rfl := Option.some.inj hr
      exact .inr ⟨_, rfl⟩
    | r + 3, hr => cases hr)
  exact absurd (hconsistent.each 0).nodup (by decide)

end SkynetServer.Web
