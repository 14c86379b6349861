import JustMail.Foundation.Requests
import JustMail.Accounts.Memberships

/-! What the admins of an organisation configure (SCIM, LDAP directories, SSO providers), the
clients that come through it, and the requests of both, one after the other. -/
namespace JustMail.Accounts
open Foundation Postfix

/-- A row of `scim_configs`. -/
structure ScimConfigRow where
  orgId : Nat
  enabled : Bool
  tokenHash : Option JsString
  defaultRole : OrgRole
  groupRoleMap : List (JsString × OrgRole)
  deactivate : Bool
  deriving DecidableEq

structure Tenancy where
  db : DirectoryDb
  scimConfigs : Table ScimConfigRow.orgId
  directories : Table DirectoryRow.id
  providers : Table ProviderRow.id

def DirectoryTables.withAccounts (t : DirectoryTables) (accounts : AccountDb) : DirectoryTables := { t with accounts := accounts }

/-- The tables with other accounts, where these meet the constraints. -/
def DirectoryDb.withAccounts (db : DirectoryDb) (accounts : AccountDb) : DirectoryDb :=
  if h : (db.val.withAccounts accounts).Consistent then ⟨_,h⟩ else db

theorem DirectoryDb.withAccounts_cases (db : DirectoryDb) (accounts : AccountDb) :
    (db.withAccounts accounts).val.accounts = accounts ∨ db.withAccounts accounts = db := by
  by_cases h : (db.val.withAccounts accounts).Consistent
  · have hnew : db.withAccounts accounts = ⟨_,h⟩ := dif_pos h
    exact .inl (by rw [hnew]; rfl)
  · exact .inr (dif_neg h)

def DirectoryDb.dropDirectory (db : DirectoryDb) (directoryId : Nat) : DirectoryDb where
  val := { db.val with ldapIdentities := db.val.ldapIdentities.deleteWhere (·.directoryId == directoryId) }
  property := by
    obtain ⟨husers,hnames,hgroups,haccounts,hmembers,hlinks⟩ := db.property
    exact ⟨husers,hnames,hgroups,haccounts,hmembers,fun i hi => hlinks i (List.mem_filter.mp hi).1⟩

def AccountDb.dropProvider (db : AccountDb) (providerId : Nat) : AccountDb :=
  { db with
    identities := db.identities.deleteWhere (·.providerId == providerId)
    identitiesUsers := fun i hi => db.identitiesUsers i (List.mem_filter.mp hi).1 }

inductive TenancyError where
  | access (e : AccessError)
  | invite (e : InviteError)
  | userNotFound
  | alreadyMember
  | directoryNotFound
  | providerNotFound
  | kindImmutable
  | scimNotEnabled
  | invalidScimToken
  | database
  deriving DecidableEq

section Members
variable (db : AccountDb) (now : Nat)

def addMember (actorId orgId : Nat) (email : JsString) (role : OrgRole) : Except TenancyError AccountDb :=
  match requireRole db now orgId actorId .admin with
  | .error e => .error (.access e)
  | .ok _ =>
    match if role = .owner then requireRole db now orgId actorId .owner else .ok role with
    | .error e => .error (.access e)
    | .ok _ =>
      match db.userByEmail email with
      | none => .error .userNotFound
      | some u =>
        if (db.members.lookup (orgId,u.id)).isSome then .error .alreadyMember
        else ((db.insertMember ⟨orgId,u.id,role⟩).map .ok).getD (.error .database)

structure ScimConfigRequest where
  enabled : Bool
  defaultRole : OrgRole
  groupRoleMap : List (JsString × OrgRole)
  deactivate : Bool

namespace ScimConfigRow

/-- The defaults of the columns. -/
def fresh (orgId : Nat) : ScimConfigRow := ⟨orgId,true,none,.member,[],true⟩

def configured (req : ScimConfigRequest) (c : ScimConfigRow) : ScimConfigRow :=
  { c with enabled := req.enabled, defaultRole := req.defaultRole, groupRoleMap := req.groupRoleMap, deactivate := req.deactivate }

def withToken (hash : Option JsString) (c : ScimConfigRow) : ScimConfigRow := { c with tokenHash := hash }

end ScimConfigRow

def ensureConfig (configs : Table ScimConfigRow.orgId) (orgId : Nat) : Table ScimConfigRow.orgId :=
  if (configs.lookup orgId).isSome then configs else configs.upsert (.fresh orgId)

/-- `UPDATE scim_configs SET .. WHERE org_id = $1`. -/
def setConfig (configs : Table ScimConfigRow.orgId) (orgId : Nat) (f : ScimConfigRow → ScimConfigRow)
    (hf : ∀ c, (f c).orgId = c.orgId) : Table ScimConfigRow.orgId := configs.updateWhere (·.orgId == orgId) f hf

def authenticate (crypto : Crypto) (configs : Table ScimConfigRow.orgId) (orgId : Nat) (token : JsString) :
    Except TenancyError ScimContext :=
  match (configs.lookup orgId).filter (·.enabled) with
  | none => .error .scimNotEnabled
  | some c =>
    match given c.tokenHash with
    | none => .error .scimNotEnabled
    | some hash =>
      if crypto.sha256 token = hash then .ok ⟨orgId,c.defaultRole,c.groupRoleMap,c.deactivate⟩ else .error .invalidScimToken

/-- The requests of a SCIM client, with the ids of the rows that they may insert. -/
inductive ScimOp where
  | createUser (body : ScimUser) (newUserId newId : Nat)
  | replaceUser (id : JsString) (body : ScimUser)
  | patchUser (id : JsString) (operations : List PatchOp)
  | deleteUser (id : JsString)
  | createGroup (body : ScimGroup) (newId : Nat)
  | replaceGroup (id : JsString) (body : ScimGroup)
  | patchGroup (id : JsString) (operations : List PatchOp)
  | deleteGroup (id : JsString)

def ScimOp.call (ctx : ScimContext) : ScimOp → DirectoryCall
  | .createUser body newUserId newId => .scimCreateUser ctx body newUserId newId
  | .replaceUser id body => .scimReplaceUser ctx id body
  | .patchUser id operations => .scimPatchUser ctx id operations
  | .deleteUser id => .scimDeleteUser ctx id
  | .createGroup body newId => .scimCreateGroup ctx body newId
  | .replaceGroup id body => .scimReplaceGroup ctx id body
  | .patchGroup id operations => .scimPatchGroup ctx id operations
  | .deleteGroup id => .scimDeleteGroup ctx id

structure LdapDirectoryRequest where
  groupRoleMap : List (JsString × OrgRole)
  defaultRole : OrgRole
  deactivateMissing : Bool

/-- What a sync reads from the directory, with the ids of the accounts it may create. -/
structure Snapshot where
  users : List MappedUser
  expand : List JsString → List JsString
  newId : JsString → Nat

def DirectoryRow.configured (req : LdapDirectoryRequest) (row : DirectoryRow) : DirectoryRow :=
  { row with groupRoleMap := req.groupRoleMap, defaultRole := req.defaultRole, deactivateMissing := req.deactivateMissing }

def DirectoryRow.sync (row : DirectoryRow) (snapshot : Snapshot) : DirectoryCall :=
  .ldapSync row snapshot.expand snapshot.users snapshot.newId

structure SsoProviderRequest where
  kind : ProviderKind
  enabled : Bool
  emailDomain : Option JsString
  autoProvision : Bool
  defaultRole : OrgRole

def ProviderKind.isOidc : ProviderKind → Bool
  | .oidc _ _ => true
  | .saml => false

def ProviderRow.configured (req : SsoProviderRequest) (p : ProviderRow) : ProviderRow :=
  { p with
    kind := req.kind
    enabled := req.enabled
    emailDomain := req.emailDomain
    autoProvision := req.autoProvision
    defaultRole := req.defaultRole }

/-- What principals of an organisation ask for, with the tokens and ids that are drawn. -/
inductive AdminCall where
  | addMember (email : JsString) (role : OrgRole)
  | updateMember (userId : Nat) (role : OrgRole)
  | removeMember (userId : Nat)
  | createInvite (req : CreateInviteRequest) (token : JsString) (inviteId : Nat)
  | revokeInvite (inviteId : Nat)
  | updateScimConfig (req : ScimConfigRequest)
  | generateToken (token : JsString)
  | revokeToken
  | createDirectory (req : LdapDirectoryRequest) (newId : Nat)
  | updateDirectory (id : Nat) (req : LdapDirectoryRequest)
  | removeDirectory (id : Nat)
  | syncNow (id : Nat) (snapshot : Snapshot)
  | createProvider (req : SsoProviderRequest) (newId : Nat)
  | updateProvider (id : Nat) (req : SsoProviderRequest)
  | removeProvider (id : Nat)

/-- Requests of principals, of SCIM clients, of the worker that syncs directories, and of
people at the login page. -/
inductive TenantCall where
  | admin (principal : SessionPrincipal) (orgId : Nat) (call : AdminCall)
  | acceptInvite (token : JsString) (req : AcceptInviteRequest) (salt : JsString) (draw : Draw)
  | scim (orgId : Nat) (token : JsString) (op : ScimOp)
  | dueSync (directoryId : Nat) (snapshot : Snapshot)
  | ssoLogin (providerId : Nat) (a : Assertion) (draw : Draw)

namespace Tenancy
variable (d : Deployment) (now : Nat) (s : Tenancy)

def request (call : DirectoryCall) : Tenancy := { s with db := (call.body d now).after .database s.db }

def setAccounts (accounts : AccountDb) : Tenancy := { s with db := s.db.withAccounts accounts }

/-- `requireRole(orgId, userId, "admin")`, then a change of what is configured. -/
def asAdmin (orgId actorId : Nat) (change : Except TenancyError Tenancy) : Except TenancyError Tenancy :=
  match requireRole s.db.val.accounts now orgId actorId .admin with
  | .error e => .error (.access e)
  | .ok _ => change

def updateConfig (orgId : Nat) (req : ScimConfigRequest) : Tenancy :=
  { s with scimConfigs := setConfig (ensureConfig s.scimConfigs orgId) orgId (·.configured req) fun _ => rfl }

def generateToken (orgId : Nat) (token : JsString) : Tenancy :=
  { s with scimConfigs := setConfig (ensureConfig s.scimConfigs orgId) orgId (·.withToken (some (d.crypto.sha256 token))) fun _ => rfl }

def revokeToken (orgId : Nat) : Tenancy :=
  { s with scimConfigs := setConfig s.scimConfigs orgId (·.withToken none) fun _ => rfl }

def createDirectory (orgId : Nat) (req : LdapDirectoryRequest) (newId : Nat) : Except TenancyError Tenancy :=
  match insertRow s.directories ⟨newId,orgId,req.groupRoleMap,req.defaultRole,req.deactivateMissing⟩ with
  | none => .error .database
  | some rows => .ok { s with directories := rows }

/-- `loadOwned`. -/
def ownedDirectory (orgId id : Nat) : Option DirectoryRow := (s.directories.lookup id).filter (·.orgId == orgId)

def updateDirectory (orgId id : Nat) (req : LdapDirectoryRequest) : Except TenancyError Tenancy :=
  match s.ownedDirectory orgId id with
  | none => .error .directoryNotFound
  | some _ =>
    .ok { s with directories := s.directories.updateWhere (fun r => r.id == id && r.orgId == orgId) (·.configured req) fun _ => rfl }

def removeDirectory (orgId id : Nat) : Except TenancyError Tenancy :=
  match s.ownedDirectory orgId id with
  | none => .error .directoryNotFound
  | some _ =>
    .ok { s with db := s.db.dropDirectory id
                 directories := s.directories.deleteWhere fun r => r.id == id && r.orgId == orgId }

def syncNow (orgId id : Nat) (snapshot : Snapshot) : Except TenancyError Tenancy :=
  match s.ownedDirectory orgId id with
  | none => .error .directoryNotFound
  | some row => .ok (s.request d now (row.sync snapshot))

def createProvider (orgId : Nat) (req : SsoProviderRequest) (newId : Nat) : Except TenancyError Tenancy :=
  match insertRow s.providers ⟨newId,orgId,req.kind,req.enabled,req.emailDomain,req.autoProvision,req.defaultRole⟩ with
  | none => .error .database
  | some rows => .ok { s with providers := rows }

def ownedProvider (orgId id : Nat) : Option ProviderRow := (s.providers.lookup id).filter (·.orgId == orgId)

def updateProvider (orgId id : Nat) (req : SsoProviderRequest) : Except TenancyError Tenancy :=
  match s.ownedProvider orgId id with
  | none => .error .providerNotFound
  | some existing =>
    if existing.kind.isOidc ≠ req.kind.isOidc then .error .kindImmutable
    else .ok { s with providers := s.providers.updateWhere (fun p => p.id == id && p.orgId == orgId) (·.configured req) fun _ => rfl }

def removeProvider (orgId id : Nat) : Except TenancyError Tenancy :=
  match s.ownedProvider orgId id with
  | none => .error .providerNotFound
  | some _ =>
    .ok { s.setAccounts (s.db.val.accounts.dropProvider id) with
      providers := s.providers.deleteWhere fun p => p.id == id && p.orgId == orgId }

def admin (principal : SessionPrincipal) (orgId : Nat) (call : AdminCall) : Except TenancyError Tenancy :=
  let asAdmin := s.asAdmin now orgId principal.userId
  match call with
  | .addMember email role => (addMember s.db.val.accounts now principal.userId orgId email role).map s.setAccounts
  | .updateMember userId role => .ok (s.request d now (.updateMember principal.userId orgId userId role))
  | .removeMember userId => .ok (s.request d now (.removeMember principal.userId orgId userId))
  | .createInvite req token inviteId =>
    ((createInvite d.crypto s.db.val.accounts now principal orgId req token inviteId).map (s.setAccounts ·.1)).mapError .invite
  | .revokeInvite inviteId => ((revoke s.db.val.accounts now principal orgId inviteId).map s.setAccounts).mapError .invite
  | .updateScimConfig req => asAdmin (.ok (s.updateConfig orgId req))
  | .generateToken token => asAdmin (.ok (s.generateToken d orgId token))
  | .revokeToken => asAdmin (.ok (s.revokeToken orgId))
  | .createDirectory req newId => asAdmin (s.createDirectory orgId req newId)
  | .updateDirectory id req => asAdmin (s.updateDirectory orgId id req)
  | .removeDirectory id => asAdmin (s.removeDirectory orgId id)
  | .syncNow id snapshot => asAdmin (s.syncNow d now orgId id snapshot)
  | .createProvider req newId => asAdmin (s.createProvider orgId req newId)
  | .updateProvider id req => asAdmin (s.updateProvider orgId id req)
  | .removeProvider id => asAdmin (s.removeProvider orgId id)

/-- A request changes the tables, or fails. What a failed one has committed by then stays;
`request` knows about that. -/
def perform : TenantCall → Except TenancyError Tenancy
  | .admin principal orgId call => s.admin d now principal orgId call
  | .acceptInvite token req salt draw => .ok (s.request d now (.acceptInvite token req salt draw))
  | .scim orgId token op => (authenticate d.crypto s.scimConfigs orgId token).map fun ctx => s.request d now (op.call ctx)
  -- whether the directory is enabled and due is left open
  | .dueSync directoryId snapshot =>
    match s.directories.lookup directoryId with
    | none => .error .directoryNotFound
    | some row => .ok (s.request d now (row.sync snapshot))
  | .ssoLogin providerId a draw =>
    match s.providers.lookup providerId with
    | none => .error .providerNotFound
    | some provider => .ok (s.request d now (.ssoLogin provider a draw))

/-- Requests come one after the other, each at its own time. -/
def step (s : Tenancy) (call : Nat × TenantCall) : Option Tenancy := (s.perform d call.1 call.2).toOption

end Tenancy
end Members
end JustMail.Accounts
