import JustMail.Foundation.Transactions
import JustMail.Accounts.Sso

/-! The statements by which members are managed: by hand, by invites, at an SSO login, and
from a SCIM client or an LDAP directory. -/
namespace JustMail.Accounts
open Foundation Postfix

/-- A row of `scim_users`, less what is only echoed to the client. -/
structure ScimUserRow where
  id : Nat
  orgId : Nat
  userId : Nat
  externalId : Option JsString
  userName : JsString
  active : Bool
  deriving DecidableEq

structure ScimGroupRow where
  id : Nat
  orgId : Nat
  externalId : Option JsString
  displayName : JsString
  deriving DecidableEq

structure GroupMemberRow where
  groupId : Nat
  scimUserId : Nat
  deriving DecidableEq

structure LdapIdentityRow where
  directoryId : Nat
  externalId : JsString
  userId : Nat
  deriving DecidableEq

def LdapIdentityRow.key (i : LdapIdentityRow) : Nat × JsString := (i.directoryId,i.externalId)

structure DirectoryTables where
  accounts : AccountDb
  scimUsers : Table ScimUserRow.id
  scimGroups : Table ScimGroupRow.id
  groupMembers : Table (id : GroupMemberRow → GroupMemberRow)
  ldapIdentities : Table LdapIdentityRow.key

/-- The unique indexes and foreign keys of the migrations. -/
def DirectoryTables.Consistent (t : DirectoryTables) : Prop :=
  (t.scimUsers.rows.map fun r => (r.orgId,r.userId)).Nodup ∧
  (t.scimUsers.rows.map fun r => (r.orgId,t.accounts.lower r.userName)).Nodup ∧
  (t.scimGroups.rows.map fun r => (r.orgId,t.accounts.lower r.displayName)).Nodup ∧
  (∀ r ∈ t.scimUsers.rows, (t.accounts.users.lookup r.userId).isSome = true) ∧
  (∀ m ∈ t.groupMembers.rows, (t.scimGroups.lookup m.groupId).isSome = true ∧ (t.scimUsers.lookup m.scimUserId).isSome = true) ∧
  ∀ i ∈ t.ldapIdentities.rows, (t.accounts.users.lookup i.userId).isSome = true

instance (t : DirectoryTables) : Decidable t.Consistent :=
  inferInstanceAs (Decidable (_ ∧ _ ∧ _ ∧ _ ∧ _ ∧ _))

/-- Tables that meet the constraints. -/
def DirectoryDb : Type := { t : DirectoryTables // t.Consistent }

def DirectoryDb.members (db : DirectoryDb) : Table MemberRow.key := db.val.accounts.members

/-- The new values of `UPDATE users SET name, status`, each where it is given. -/
def UserRow.updated (name : Option JsString) (status : Option UserStatus) (u : UserRow) : UserRow :=
  { u with name := name.getD u.name, status := status.getD u.status }

theorem UserRow.updated_id (name : Option JsString) (status : Option UserStatus) (u : UserRow) : (u.updated name status).id = u.id := rfl

def MemberRow.withRole (role : OrgRole) (m : MemberRow) : MemberRow := { m with role := role }

theorem MemberRow.withRole_key (role : OrgRole) (m : MemberRow) : (m.withRole role).key = m.key := rfl

namespace AccountDb
variable (db : AccountDb)

def updateUser (userId : Nat) (name : Option JsString) (status : Option UserStatus) : AccountDb :=
  { db with
    users := db.users.updateWhere (·.id == userId) (·.updated name status) (UserRow.updated_id name status)
    emails := by
      have hemail : ∀ u : UserRow, (if u.id = userId then u.updated name status else u).email = u.email := by
        intro u
        split
        · rfl
        · rfl
      simpa [Table.updateWhere,Function.comp_def,hemail] using db.emails
    membersUsers := by
      intro m hm
      rw [Table.lookup_updateWhere,Option.isSome_map]
      exact db.membersUsers m hm
    identitiesUsers := by
      intro i hi
      rw [Table.lookup_updateWhere,Option.isSome_map]
      exact db.identitiesUsers i hi }

/-- `UPDATE org_members SET role = $3 WHERE org_id = $1 AND user_id = $2`. -/
def setMemberRole (orgId userId : Nat) (role : OrgRole) : AccountDb :=
  { db with
    members := db.members.updateWhere (·.key == (orgId,userId)) (·.withRole role) (MemberRow.withRole_key role)
    membersUsers := by
      intro m hm
      obtain ⟨m',hm',rfl⟩ := List.mem_map.mp hm
      have hexists := db.membersUsers m' hm'
      split
      · exact hexists
      · exact hexists }

/-- `DELETE FROM org_members WHERE org_id = $1 AND user_id = $2`. -/
def deleteMember (orgId userId : Nat) : AccountDb :=
  { db with
    members := db.members.deleteWhere (·.key == (orgId,userId))
    membersUsers := fun m hm => db.membersUsers m (List.mem_filter.mp hm).1 }

def roleOf (k : Nat × Nat) : Option OrgRole := (db.members.lookup k).map (·.role)

theorem roleOf_setMemberRole (orgId userId : Nat) (role : OrgRole) (k : Nat × Nat) :
    (db.setMemberRole orgId userId role).roleOf k = if k = (orgId,userId) then (db.roleOf k).map fun _ => role else db.roleOf k := by
  rw [roleOf,roleOf,setMemberRole,Table.lookup_updateWhere]
  cases hold : db.members.lookup k with
  | none => simp
  | some old =>
    have hkey := Table.key_of_lookup hold
    by_cases hk : k = (orgId,userId) <;> simp [hkey,hk,MemberRow.withRole]

theorem roleOf_deleteMember (orgId userId : Nat) (k : Nat × Nat) :
    (db.deleteMember orgId userId).roleOf k = if k = (orgId,userId) then none else db.roleOf k := by
  rw [roleOf,roleOf,deleteMember,Table.lookup_deleteWhere]
  cases hold : db.members.lookup k with
  | none => simp
  | some old =>
    have hkey := Table.key_of_lookup hold
    by_cases hk : k = (orgId,userId) <;> simp [Option.filter,hkey,hk]

variable {db} {db' : AccountDb} {m : MemberRow}

theorem roleOf_upsertMember (h : db.upsertMember m = some db') (k : Nat × Nat) :
    db'.roleOf k = if k = m.key then some m.role else db.roleOf k := by
  rw [roleOf,roleOf,(upsertMember_spec h).2.2.2.2,Table.lookup_upsert]
  split
  · rfl
  · rfl

theorem roleOf_insertMember (h : db.insertMember m = some db') (k : Nat × Nat) :
    db'.roleOf k = if k = m.key then some ((db.roleOf k).getD m.role) else db.roleOf k := by
  rw [insertMember] at h
  split at h
  · rename_i hexists
    obtain ⟨old,hold⟩ := Option.isSome_iff_exists.mp hexists
    cases h
    split
    · rename_i hk
      rw [hk,roleOf,hold]
      rfl
    · rfl
  · rename_i hnone
    rw [roleOf_upsertMember h]
    split
    · rename_i hk
      rw [hk,roleOf,Option.not_isSome_iff_eq_none.mp hnone]
      rfl
    · rfl

end AccountDb

inductive AccountWrite where
  | insertUser (u : UserRow)
  | updateUser (userId : Nat) (name : Option JsString) (status : Option UserStatus)
  | upsertMember (m : MemberRow)
  | insertMember (m : MemberRow)
  | setMemberRole (orgId userId : Nat) (role : OrgRole)
  | deleteMember (orgId userId : Nat)
  | acceptInvite (inviteId now : Nat)
  | insertSession (s : SessionRow)
  | insertIdentity (i : IdentityRow)

def AccountWrite.apply (db : AccountDb) : AccountWrite → Option AccountDb
  | .insertUser u => db.insertUser u
  | .updateUser userId name status => some (db.updateUser userId name status)
  | .upsertMember m => db.upsertMember m
  | .insertMember m => db.insertMember m
  | .setMemberRole orgId userId role => some (db.setMemberRole orgId userId role)
  | .deleteMember orgId userId => some (db.deleteMember orgId userId)
  | .acceptInvite inviteId now => some (markAccepted db now inviteId)
  | .insertSession s => db.insertSession s
  | .insertIdentity i => db.insertIdentity i

inductive RowWrite where
  | account (w : AccountWrite)
  | insertScimUser (r : ScimUserRow)
  | updateScimUser (id : Nat) (externalId : Option JsString) (userName : JsString) (active : Bool)
  | deleteScimUser (id : Nat)
  | insertScimGroup (r : ScimGroupRow)
  | updateScimGroup (id : Nat) (displayName : JsString) (externalId : Option (Option JsString))
  | deleteScimGroup (id : Nat)
  | insertGroupMember (m : GroupMemberRow)
  | deleteGroupMember (m : GroupMemberRow)
  | upsertLdapIdentity (i : LdapIdentityRow)

/-- `INSERT`, refused where the key is taken. -/
def insertRow {κ ρ : Type} [DecidableEq κ] {key : ρ → κ} (t : Table key) (r : ρ) : Option (Table key) :=
  if h : t.lookup (key r) = none then some (t.insert r h) else none

/-- The tables after a row, before the constraints are checked. Memberships go with the
user or the group of SCIM that is deleted. -/
def RowWrite.onTables (t : DirectoryTables) : RowWrite → Option DirectoryTables
  | .account w => (w.apply t.accounts).map fun accounts => { t with accounts := accounts }
  | .insertScimUser r => (insertRow t.scimUsers r).map fun rows => { t with scimUsers := rows }
  | .updateScimUser id externalId userName active =>
    let update (r : ScimUserRow) := { r with externalId := externalId, userName := userName, active := active }
    some { t with scimUsers := t.scimUsers.updateWhere (·.id == id) update fun _ => rfl }
  | .deleteScimUser id =>
    some { t with scimUsers := t.scimUsers.deleteWhere (·.id == id)
                  groupMembers := t.groupMembers.deleteWhere (·.scimUserId == id) }
  | .insertScimGroup r => (insertRow t.scimGroups r).map fun rows => { t with scimGroups := rows }
  | .updateScimGroup id displayName externalId =>
    let update (r : ScimGroupRow) := { r with displayName := displayName, externalId := externalId.getD r.externalId }
    some { t with scimGroups := t.scimGroups.updateWhere (·.id == id) update fun _ => rfl }
  | .deleteScimGroup id =>
    some { t with scimGroups := t.scimGroups.deleteWhere (·.id == id)
                  groupMembers := t.groupMembers.deleteWhere (·.groupId == id) }
  | .insertGroupMember m => some { t with groupMembers := t.groupMembers.upsert m }
  | .deleteGroupMember m => some { t with groupMembers := t.groupMembers.deleteWhere (· == m) }
  | .upsertLdapIdentity i => some { t with ldapIdentities := t.ldapIdentities.upsert i }

def RowWrite.apply (db : DirectoryDb) (w : RowWrite) : Option DirectoryDb :=
  (w.onTables db.val).bind fun t => if h : t.Consistent then some ⟨t,h⟩ else none

section Statements

/-- The statements of the services, by what they are for. -/
inductive Sql where
  -- accounts and memberships
  | memberRole (orgId userId : Nat)
  | validApiKey (now keyId : Nat)
  | lastOwnerRow (orgId userId : Nat)
  | updateMemberRole (orgId userId : Nat) (role : OrgRole)
  | deleteMember (orgId userId : Nat)
  | upsertMember (m : MemberRow)
  | insertMember (m : MemberRow)
  | userByEmail (email : JsString)
  | insertUser (u : UserRow)
  | insertSession (s : SessionRow)
  -- invites and SSO
  | invite (tokenHash : JsString)
  | acceptInvite (now inviteId : Nat)
  | linkedUser (providerId : Nat) (subject : JsString)
  | insertIdentity (i : IdentityRow)
  -- SCIM
  | scimUserNamed (orgId : Nat) (lowerName : JsString)
  | scimUser (orgId id : Nat)
  | insertScimUser (r : ScimUserRow)
  | updateScimUser (id : Nat) (externalId : Option JsString) (userName : JsString) (active : Bool)
  | deleteScimUser (id : Nat)
  | suspendUser (userId : Nat)
  | reactivateUser (userId : Nat)
  | renameUser (userId : Nat) (name : JsString)
  | scimGroupNamed (orgId : Nat) (lowerName : JsString)
  | scimGroup (orgId id : Nat)
  | insertScimGroup (r : ScimGroupRow)
  | updateScimGroup (id : Nat) (displayName : JsString) (externalId : Option (Option JsString))
  | deleteScimGroup (id : Nat)
  | clearGroup (groupId : Nat)
  | insertGroupMember (m : GroupMemberRow)
  | deleteGroupMember (m : GroupMemberRow)
  | memberUserIds (groupId : Nat)
  | groupNamesOf (orgId userId : Nat)
  -- LDAP
  | ldapLink (directoryId : Nat) (externalId : JsString)
  | activateUser (userId : Nat) (name : JsString)
  | upsertLdapIdentity (i : LdapIdentityRow)
  | ldapLinks (directoryId : Nat)
  | suspendActive (userId : Nat)

/-- The rows that a statement returns, or whether it has changed one. -/
def Sql.Result : Sql → Type
  | .memberRole _ _ => Option OrgRole
  | .validApiKey _ _ => Option ApiKeyRow
  | .lastOwnerRow _ _ => Option (OrgRole × Nat)
  | .updateMemberRole _ _ _ | .deleteMember _ _ | .suspendActive _ => Bool
  | .userByEmail _ | .linkedUser _ _ => Option UserRow
  | .invite _ => Option InviteRow
  | .scimUserNamed _ _ | .scimUser _ _ => Option ScimUserRow
  | .scimGroupNamed _ _ | .scimGroup _ _ => Option ScimGroupRow
  | .memberUserIds _ => List Nat
  | .groupNamesOf _ _ => List JsString
  | .ldapLink _ _ => Option Nat
  | .ldapLinks _ => List LdapIdentityRow
  | _ => Unit

variable (t : DirectoryTables)

/-- `SELECT count(*) FROM org_members WHERE org_id = $1 AND role = 'owner'`. -/
def ownerCount (members : Table MemberRow.key) (orgId : Nat) : Nat :=
  members.rows.countP fun m => m.orgId == orgId && m.role == .owner

/-- What `guardLastOwner` selects. -/
def lastOwnerRow (members : Table MemberRow.key) (orgId userId : Nat) : Option (OrgRole × Nat) :=
  (members.lookup (orgId,userId)).map fun m => (m.role,ownerCount members orgId)

/-- `scim_group_members JOIN scim_users WHERE group_id = $1`. -/
def memberUserIds (groupId : Nat) : List Nat :=
  (t.groupMembers.rows.filter (·.groupId == groupId)).filterMap fun m => (t.scimUsers.lookup m.scimUserId).map (·.userId)

/-- `scim_group_members JOIN scim_users JOIN scim_groups WHERE user_id = $1 AND org_id = $2`. -/
def groupNamesOf (orgId userId : Nat) : List JsString :=
  t.groupMembers.rows.filterMap fun m =>
    ((t.scimUsers.lookup m.scimUserId).filter fun u => u.userId == userId && u.orgId == orgId).bind fun _ =>
      (t.scimGroups.lookup m.groupId).map (·.displayName)

def Sql.eval (t : DirectoryTables) : (q : Sql) → q.Result × List RowWrite
  | .memberRole orgId userId => ((t.accounts.members.lookup (orgId,userId)).map (·.role),[])
  | .validApiKey now keyId =>
    ((t.accounts.apiKeys.lookup keyId).filter fun k => k.revokedAt.isNone && k.expiresAt.all (now < ·),[])
  | .lastOwnerRow orgId userId => (Accounts.lastOwnerRow t.accounts.members orgId userId,[])
  | .updateMemberRole orgId userId role =>
    ((t.accounts.members.lookup (orgId,userId)).isSome,[.account (.setMemberRole orgId userId role)])
  | .deleteMember orgId userId => ((t.accounts.members.lookup (orgId,userId)).isSome,[.account (.deleteMember orgId userId)])
  | .upsertMember m => ((),[.account (.upsertMember m)])
  | .insertMember m => ((),[.account (.insertMember m)])
  | .userByEmail email => (t.accounts.userByEmail email,[])
  | .insertUser u => ((),[.account (.insertUser u)])
  | .insertSession s => ((),[.account (.insertSession s)])
  | .invite tokenHash => (t.accounts.invites.lookup tokenHash,[])
  | .acceptInvite now inviteId => ((),[.account (.acceptInvite inviteId now)])
  | .linkedUser providerId subject =>
    ((t.accounts.identities.lookup (providerId,subject)).bind fun i => t.accounts.users.lookup i.userId,[])
  | .insertIdentity i => ((),[.account (.insertIdentity i)])
  | .scimUserNamed orgId lowerName => (t.scimUsers.rows.find? fun r => r.orgId == orgId && t.accounts.lower r.userName == lowerName,[])
  | .scimUser orgId id => ((t.scimUsers.lookup id).filter (·.orgId == orgId),[])
  | .insertScimUser r => ((),[.insertScimUser r])
  | .updateScimUser id externalId userName active => ((),[.updateScimUser id externalId userName active])
  | .deleteScimUser id => ((),[.deleteScimUser id])
  | .suspendUser userId => ((),[.account (.updateUser userId none (some .suspended))])
  | .reactivateUser userId =>
    ((),if (t.accounts.users.lookup userId).any (·.status == .suspended) then [.account (.updateUser userId none (some .active))] else [])
  | .renameUser userId name => ((),[.account (.updateUser userId (some name) none)])
  | .scimGroupNamed orgId lowerName =>
      (t.scimGroups.rows.find? fun r => r.orgId == orgId && t.accounts.lower r.displayName == lowerName,[])
  | .scimGroup orgId id => ((t.scimGroups.lookup id).filter (·.orgId == orgId),[])
  | .insertScimGroup r => ((),[.insertScimGroup r])
  | .updateScimGroup id displayName externalId => ((),[.updateScimGroup id displayName externalId])
  | .deleteScimGroup id => ((),[.deleteScimGroup id])
  | .clearGroup groupId => ((),(t.groupMembers.rows.filter (·.groupId == groupId)).map .deleteGroupMember)
  | .insertGroupMember m => ((),[.insertGroupMember m])
  | .deleteGroupMember m => ((),[.deleteGroupMember m])
  | .memberUserIds groupId => (Accounts.memberUserIds t groupId,[])
  | .groupNamesOf orgId userId => (Accounts.groupNamesOf t orgId userId,[])
  | .ldapLink directoryId externalId => ((t.ldapIdentities.lookup (directoryId,externalId)).map (·.userId),[])
  -- `COALESCE(NULLIF($2, ''), name)`
  | .activateUser userId name => ((),[.account (.updateUser userId (if name.isEmpty then none else some name) (some .active))])
  | .upsertLdapIdentity i => ((),[.upsertLdapIdentity i])
  | .ldapLinks directoryId => (t.ldapIdentities.rows.filter (·.directoryId == directoryId),[])
  | .suspendActive userId =>
    if (t.accounts.users.lookup userId).any (·.status != .suspended) then
      (true,[.account (.updateUser userId none (some .suspended))])
    else (false,[])

abbrev directoryDatabase : Database where
  State := DirectoryDb
  Stmt := Sql
  Result := Sql.Result
  Write := RowWrite
  eval db q := q.eval db.val
  apply := RowWrite.apply

inductive ApiError where
  | access (e : AccessError)
  | onlyOwnersGrantOwner
  | lastOwner
  | memberNotFound
  | invite (e : InviteError)
  | sso (e : SsoError)
  | userNameNotEmail
  | userExists
  | userNotFound
  | displayNameRequired
  | groupExists
  | groupNotFound
  | database
  deriving DecidableEq

abbrev Request (α : Type) : Type := Program directoryDatabase ApiError α

def query (q : Sql) : Request q.Result := @Program.query directoryDatabase ApiError q

def fail {α : Type} (e : ApiError) : Request α := Program.throw e

def transaction {α : Type} (body : Request α) : Request α := Program.tx body

end Statements
end JustMail.Accounts
