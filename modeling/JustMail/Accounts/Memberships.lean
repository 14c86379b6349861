import JustMail.Accounts.Provisioning

/-! The services that write `org_members`, statement by statement, and the requests that
reach them. -/
namespace JustMail.Accounts
open Foundation Postfix

namespace OrgsService

/-- The role that was found has to reach `minRole`. -/
def checkRole (minRole : OrgRole) : Option OrgRole → Request OrgRole
  | none => fail (.access .orgNotFound)
  | some role => if role.rank < minRole.rank then fail (.access (.insufficientRole minRole)) else pure role

def requireRole (now orgId userId : Nat) (minRole : OrgRole) : Request OrgRole := do
  let member : Option OrgRole ← query (.memberRole orgId userId)
  let role ← match member with
    | some role => pure (some role)
    | none => do
      let key : Option ApiKeyRow ← query (.validApiKey now userId)
      pure ((key.filter (·.orgId == orgId)).map (roleFromScopes ·.scopes))
  checkRole minRole role

/-- `rows[0]?.role === "owner" && Number(rows[0].n) <= 1`. -/
def refuses (row : Option (OrgRole × Nat)) : Bool := row.any fun (role,n) => role == .owner && n ≤ 1

def guardLastOwner (orgId userId : Nat) : Request Unit := do
  let row ← query (.lastOwnerRow orgId userId)
  if refuses row then fail .lastOwner

def updateMember (now actorId orgId userId : Nat) (role : OrgRole) : Request Unit := do
  let actorRole ← requireRole now orgId actorId .admin
  if role = .owner ∧ actorRole ≠ .owner then fail .onlyOwnersGrantOwner
  guardLastOwner orgId userId
  let changed : Bool ← query (.updateMemberRole orgId userId role)
  if !changed then fail .memberNotFound

def removeMember (now actorId orgId userId : Nat) : Request Unit := do
  if userId ≠ actorId then
    let _ ← requireRole now orgId actorId .admin
  guardLastOwner orgId userId
  let changed : Bool ← query (.deleteMember orgId userId)
  if !changed then fail .memberNotFound

end OrgsService

section Sessions
variable (crypto : Crypto) (ttl now : Nat)

namespace InvitesService

def loadPending (token : JsString) : Request InviteRow := do
  let invite : Option InviteRow ← query (.invite (crypto.sha256 token))
  match invite with
  | none => fail (.invite .notFound)
  | some invite =>
    if invite.acceptedAt.isSome then fail (.invite .alreadyUsed)
    else if invite.expiresAt < now then fail (.invite .expired)
    else pure invite

def accept (token : JsString) (req : AcceptInviteRequest) (salt : JsString) (draw : Draw) : Request Nat := do
  let invite ← loadPending crypto now token
  let existing : Option UserRow ← query (.userByEmail invite.email)
  let userId ← transaction do
    let userId ← match existing with
      | some u => pure u.id
      | none => do
        query (.insertUser ⟨draw.userId,invite.email,req.name,some (crypto.argon2Hash salt req.password),none,false,.active⟩)
        pure draw.userId
    query (.upsertMember ⟨invite.orgId,userId,invite.role⟩)
    query (.acceptInvite now invite.id)
    pure userId
  query (.insertSession ⟨crypto.sha256 draw.token,userId,now + ttl,none⟩)
  pure userId

end InvitesService

namespace SsoService

/-- The account with the e-mail of the identity, if it has one. -/
def existingUser (identity : Identity) : Request (Option UserRow) :=
  match given identity.email with
  | some email => query (.userByEmail email)
  | none => pure none

/-- The account of an identity that is not linked. -/
def matchAccount (provider : ProviderRow) (identity : Identity) (newId : Nat) : Request Nat := do
  match ← existingUser identity with
  | some u => if u.status ≠ .active then fail (.sso .accountSuspended) else pure u.id
  | none =>
    if !provider.autoProvision then fail (.sso .noAccount)
    else match given identity.email with
      | none => fail (.sso .noEmail)
      | some email => do
        query (.insertUser ⟨newId,email,identity.name.getD [],none,none,false,.active⟩)
        pure newId

def provisionAndSession (provider : ProviderRow) (identity : Identity) (draw : Draw) : Request Nat := do
  let userId ← transaction do
    let linked : Option UserRow ← query (.linkedUser provider.id identity.subject)
    match linked with
    | some u => if u.status ≠ .active then fail (.sso .accountSuspended) else pure u.id
    | none => do
      let userId ← matchAccount provider identity draw.userId
      query (.insertMember ⟨provider.orgId,userId,provider.defaultRole⟩)
      query (.insertIdentity ⟨provider.id,identity.subject,userId⟩)
      pure userId
  query (.insertSession ⟨crypto.sha256 draw.token,userId,now + ttl,none⟩)
  pure userId

end SsoService

inductive DirectoryCall where
  | updateMember (actorId orgId userId : Nat) (role : OrgRole)
  | removeMember (actorId orgId userId : Nat)
  | acceptInvite (token : JsString) (req : AcceptInviteRequest) (salt : JsString) (draw : Draw)
  | ssoLogin (provider : ProviderRow) (a : Assertion) (draw : Draw)
  | scimCreateUser (ctx : ScimContext) (body : ScimUser) (newUserId newId : Nat)
  | scimReplaceUser (ctx : ScimContext) (id : JsString) (body : ScimUser)
  | scimPatchUser (ctx : ScimContext) (id : JsString) (operations : List PatchOp)
  | scimDeleteUser (ctx : ScimContext) (id : JsString)
  | scimCreateGroup (ctx : ScimContext) (body : ScimGroup) (newId : Nat)
  | scimReplaceGroup (ctx : ScimContext) (id : JsString) (body : ScimGroup)
  | scimPatchGroup (ctx : ScimContext) (id : JsString) (operations : List PatchOp)
  | scimDeleteGroup (ctx : ScimContext) (id : JsString)
  | ldapSync (row : DirectoryRow) (expand : List JsString → List JsString) (users : List MappedUser) (newId : JsString → Nat)

structure Deployment where
  cm : CaseMapping
  crypto : Crypto
  ttl : Nat

def Request.ignore {α : Type} (r : Request α) : Request Unit := do
  let _ ← r
  pure ()

/-- What a call at the time `now` does. -/
def DirectoryCall.body (d : Deployment) (now : Nat) : DirectoryCall → Request Unit
  | .updateMember actorId orgId userId role => OrgsService.updateMember now actorId orgId userId role
  | .removeMember actorId orgId userId => OrgsService.removeMember now actorId orgId userId
  | .acceptInvite token req salt draw => (InvitesService.accept d.crypto d.ttl now token req salt draw).ignore
  | .ssoLogin provider a draw =>
    if provider.enabled then (SsoService.provisionAndSession d.crypto d.ttl now provider (identityOf provider a) draw).ignore
    else fail (.sso .notFound)
  | .scimCreateUser ctx body newUserId newId => (ScimService.createUser d.cm ctx body newUserId newId).ignore
  | .scimReplaceUser ctx id body => ScimService.replaceUser ctx id body
  | .scimPatchUser ctx id operations => ScimService.patchUser d.cm ctx id operations
  | .scimDeleteUser ctx id => ScimService.deleteUser ctx id
  | .scimCreateGroup ctx body newId => (ScimService.createGroup d.cm ctx body newId).ignore
  | .scimReplaceGroup ctx id body => (ScimService.replaceGroup d.cm ctx id body).ignore
  | .scimPatchGroup ctx id operations => (ScimService.patchGroup d.cm ctx id operations).ignore
  | .scimDeleteGroup ctx id => ScimService.deleteGroup d.cm ctx id
  | .ldapSync row expand users newId => (LdapService.applySnapshot d.cm row expand users newId).ignore

end Sessions
end JustMail.Accounts
