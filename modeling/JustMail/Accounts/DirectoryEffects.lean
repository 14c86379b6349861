import JustMail.Accounts.LastOwner
import JustMail.Accounts.DirectoryStatements

/-! What the rows that statements write do to the tables: to the accounts that ids name, to
the roles, and to the tables of SCIM and LDAP. -/
namespace JustMail.Accounts
open Foundation Postfix Program

section Landing
variable {db db' : DirectoryDb} {w : RowWrite}

/-- A row that lands changes its tables and passes the constraints. -/
theorem RowWrite.apply_val (h : w.apply db = some db') : w.onTables db.val = some db'.val := by
  rw [RowWrite.apply] at h
  obtain ⟨t,ht,hchecked⟩ := Option.bind_eq_some_iff.mp h
  split at hchecked
  · rw [ht,← Option.some.inj hchecked]
  · simp at hchecked

/-- A row of the accounts changes nothing else. -/
theorem RowWrite.account_apply {v : AccountWrite} (h : (RowWrite.account v).apply db = some db') :
    v.apply db.val.accounts = some db'.val.accounts ∧ db'.val = db.val.withAccounts db'.val.accounts := by
  obtain ⟨accounts,happly,hsame⟩ := Option.map_eq_some_iff.mp (RowWrite.apply_val h)
  rw [← hsame]
  exact ⟨happly,rfl⟩

theorem land_nil (h : directoryDatabase.land db [] = some db') : db' = db := (Option.some.inj h).symm

theorem land_one (h : directoryDatabase.land db [w] = some db') : w.apply db = some db' := by
  rw [Database.land_cons] at h
  obtain ⟨mid,hmid,h⟩ := Option.bind_eq_some_iff.mp h
  rw [← land_nil h] at hmid
  exact hmid

/-- A statement that reads returns what is there. -/
theorem returns_read {q : Sql} {r : q.Result} (hq : (q.eval db.val).2 = []) (h : (query q).Returns db r db') :
    db' = db ∧ (q.eval db.val).1 = r := by
  obtain ⟨hland,hr⟩ := returns_query.mp h
  refine ⟨land_nil ?_,hr⟩
  rw [← hq]
  exact hland

theorem returns_write {q : Sql} {r : q.Result} {w : RowWrite} (hq : (q.eval db.val).2 = [w]) (h : (query q).Returns db r db') :
    w.apply db = some db' := by
  obtain ⟨hland,-⟩ := returns_query.mp h
  refine land_one ?_
  rw [← hq]
  exact hland

end Landing

section Users
variable {a a' : AccountDb}

def AccountWrite.userAfter (k : Nat) (old : Option UserRow) : AccountWrite → Option UserRow
  | .insertUser u => if k = u.id then some u else old
  | .updateUser userId name status => old.map fun u => if u.id == userId then u.updated name status else u
  | _ => old

theorem AccountDb.upsertMember_users {m : MemberRow} (h : a.upsertMember m = some a') : a'.users = a.users :=
  (AccountDb.upsertMember_spec h).2.1

theorem AccountDb.insertMember_users {m : MemberRow} (h : a.insertMember m = some a') : a'.users = a.users := by
  rw [AccountDb.insertMember] at h
  split at h
  · rw [← Option.some.inj h]
  · exact AccountDb.upsertMember_users h

theorem AccountWrite.collation_apply {w : AccountWrite} (h : w.apply a = some a') : a'.collation = a.collation := by
  have hupsert : ∀ m : MemberRow, a.upsertMember m = some a' → a'.collation = a.collation := by
    intro m h
    rw [AccountDb.upsertMember] at h
    split at h
    · rw [← Option.some.inj h]
    · simp at h
  cases w with
  | insertUser u =>
    rw [AccountWrite.apply,AccountDb.insertUser] at h
    split at h
    · rw [← Option.some.inj h]
    · simp at h
  | insertSession s =>
    rw [AccountWrite.apply,AccountDb.insertSession] at h
    split at h
    · rw [← Option.some.inj h]
    · simp at h
  | insertIdentity i =>
    rw [AccountWrite.apply,AccountDb.insertIdentity] at h
    split at h
    · rw [← Option.some.inj h]
    · simp at h
  | upsertMember m => exact hupsert m h
  | insertMember m =>
    rw [AccountWrite.apply,AccountDb.insertMember] at h
    split at h
    · rw [← Option.some.inj h]
    · exact hupsert m h
  | _ => rw [← Option.some.inj h]; rfl

theorem AccountWrite.users_apply {w : AccountWrite} (h : w.apply a = some a') (k : Nat) :
    a'.users.lookup k = w.userAfter k (a.users.lookup k) := by
  cases w with
  | insertUser u =>
    rw [AccountWrite.apply,AccountDb.insertUser] at h
    split at h
    · rename_i hfresh
      rw [← Option.some.inj h]
      exact Table.lookup_insert a.users u hfresh.1 k
    · simp at h
  | updateUser userId name status =>
    rw [← Option.some.inj h]
    exact Table.lookup_updateWhere a.users _ _ (UserRow.updated_id name status) k
  | upsertMember m => rw [AccountDb.upsertMember_users h]; rfl
  | insertMember m => rw [AccountDb.insertMember_users h]; rfl
  | insertSession s =>
    rw [AccountWrite.apply,AccountDb.insertSession] at h
    split at h
    · rw [← Option.some.inj h]; rfl
    · simp at h
  | insertIdentity i =>
    rw [AccountWrite.apply,AccountDb.insertIdentity] at h
    split at h
    · rw [← Option.some.inj h]; rfl
    · simp at h
  | _ => rw [← Option.some.inj h]; rfl

/-- A new account has an id of its own. -/
theorem AccountWrite.insertUser_fresh {u : UserRow} (h : (AccountWrite.insertUser u).apply a = some a') :
    a.users.lookup u.id = none := (AccountDb.insertUser_spec h).1

theorem AccountDb.member_user {orgId userId : Nat} (h : (a.roleOf (orgId,userId)).isSome = true) :
    ∃ u, a.users.lookup userId = some u := by
  obtain ⟨role,hrole⟩ := Option.isSome_iff_exists.mp h
  obtain ⟨m,hm,-⟩ := Option.map_eq_some_iff.mp hrole
  obtain ⟨hmem,hkey⟩ := Table.lookup_eq_some.mp hm
  have hexists := a.membersUsers m hmem
  rw [show m.userId = userId from (Prod.mk.inj hkey).2] at hexists
  exact Option.isSome_iff_exists.mp hexists

end Users

/-- No request changes how texts are compared. -/
theorem returns_collation {α : Type} {p : Request α} {x : α} {db db' : DirectoryDb} (h : p.Returns db x db') :
    db'.val.accounts.collation = db.val.accounts.collation := by
  have hrow : ∀ (w : RowWrite) (mid mid' : DirectoryDb), mid.val.accounts.collation = db.val.accounts.collation →
      w.apply mid = some mid' → mid'.val.accounts.collation = db.val.accounts.collation := by
    intro w mid mid' hmid hw
    rcases RowWrite.apply_cases hw with ⟨v,-,hv⟩ | ⟨-,-,hsame⟩
    · exact (AccountWrite.collation_apply hv).trans hmid
    · rw [hsame]
      exact hmid
  exact @Returns.invariant directoryDatabase ApiError α p db db' x
    (fun t => t.val.accounts.collation = db.val.accounts.collation) hrow h rfl

section Loading
variable (db : DirectoryDb) {ctx : ScimContext} {α : Type}

/-- The account that a SCIM id of the client's organisation stands for. -/
def scimAccount (ctx : ScimContext) (id : JsString) : Option ScimUserRow :=
  (uuidOf id).bind fun id => (db.val.scimUsers.lookup id).filter (·.orgId == ctx.orgId)

def scimGroupRow (ctx : ScimContext) (id : JsString) : Option ScimGroupRow :=
  (uuidOf id).bind fun id => (db.val.scimGroups.lookup id).filter (·.orgId == ctx.orgId)

variable {db}

/-- A request that begins with `loadUser`. -/
theorem after_loadUser (g : ScimUserRow → Request α) (id : JsString) :
    (ScimService.loadUser ctx id >>= g).after .database db = (scimAccount db ctx id).elim db fun row => (g row).after .database db := by
  rw [ScimService.loadUser,scimAccount]
  cases uuidOf id with
  | none => rfl
  | some id =>
    dsimp only [Option.bind_some]
    rw [bind_assoc,query,after_query_bind rfl]
    dsimp only [Sql.eval]
    cases (db.val.scimUsers.lookup id).filter (·.orgId == ctx.orgId) with
    | none => rfl
    | some row => rfl

/-- A request that begins with `loadGroup`. -/
theorem after_loadGroup (g : ScimGroupRow → Request α) (id : JsString) :
    (ScimService.loadGroup ctx id >>= g).after .database db = (scimGroupRow db ctx id).elim db fun row => (g row).after .database db := by
  rw [ScimService.loadGroup,scimGroupRow]
  cases uuidOf id with
  | none => rfl
  | some id =>
    dsimp only [Option.bind_some]
    rw [bind_assoc,query,after_query_bind rfl]
    dsimp only [Sql.eval]
    cases (db.val.scimGroups.lookup id).filter (·.orgId == ctx.orgId) with
    | none => rfl
    | some row => rfl

end Loading
end JustMail.Accounts
