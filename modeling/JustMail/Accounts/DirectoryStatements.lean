import JustMail.Accounts.Tenancy

/-! The statements that the requests of SCIM clients, LDAP syncs and SSO logins are made of.
What they write of an organisation is theirs, with a role that it has configured. -/
namespace JustMail.Accounts
open Foundation Postfix Program

section Scim
variable (cm : CaseMapping) (ctx : ScimContext)

/-- The statements about users. -/
def userStatement : Sql → Prop
  | .scimUserNamed orgId _ | .scimUser orgId _ => orgId = ctx.orgId
  | .insertScimUser r => r.orgId = ctx.orgId
  | .insertMember m => m.orgId = ctx.orgId ∧ m.role = ctx.defaultRole
  | .userByEmail _ | .insertUser _ | .suspendUser _ | .reactivateUser _ | .renameUser _ _ => True
  | .updateScimUser _ _ _ _ | .deleteScimUser _ => True
  | _ => False

def groupStatement : Sql → Prop
  | .scimUser orgId _ | .scimGroupNamed orgId _ | .scimGroup orgId _ | .groupNamesOf orgId _ => orgId = ctx.orgId
  | .insertScimGroup r => r.orgId = ctx.orgId
  | .upsertMember m => m.orgId = ctx.orgId ∧ ∃ names, m.role = resolveRole cm names ctx.groupRoleMap ctx.defaultRole
  | .updateScimGroup _ _ _ | .deleteScimGroup _ => True
  | .clearGroup _ | .insertGroupMember _ | .deleteGroupMember _ | .memberUserIds _ => True
  | _ => False

def scimStatement (q : Sql) : Prop := userStatement ctx q ∨ groupStatement cm ctx q

namespace ScimService
variable {cm ctx}

theorem only_loadUser (id : JsString) : (loadUser ctx id).Only (userStatement ctx) := by
  rw [loadUser]
  split
  · trivial
  · refine .bind (only_query rfl) fun row => ?_
    cases row with
    | none => trivial
    | some row => trivial

theorem only_applyActive (userId : Nat) (active : Bool) : (applyActive userId active).Only (userStatement ctx) :=
  .ite (only_query trivial) (only_query trivial)

theorem only_resolveLocalUser (email displayName : JsString) (newId : Nat) :
    (resolveLocalUser email displayName newId).Only (userStatement ctx) := by
  refine .bind (only_query trivial) fun found => ?_
  cases found with
  | some found => trivial
  | none => exact .bind (only_query trivial) fun _ => trivial

theorem only_addMembers (groupId : Nat) (sids : List JsString) : (addMembers ctx groupId sids).Only (groupStatement cm ctx) := by
  induction sids with
  | nil => trivial
  | cons sid rest ih =>
    rw [addMembers]
    split
    · exact ih
    · refine .bind (only_query rfl) fun found => ?_
      cases found with
      | none => exact ih
      | some found => exact .bind (only_query trivial) fun _ => .bind ih fun _ => trivial

theorem only_removeMembers (groupId : Nat) (sids : List JsString) :
    (removeMembers ctx groupId sids).Only (groupStatement cm ctx) := by
  induction sids with
  | nil => trivial
  | cons sid rest ih =>
    rw [removeMembers]
    split
    · exact ih
    · exact .bind (only_query rfl) fun _ => .bind (only_query trivial) fun _ => .bind ih fun _ => trivial

theorem only_setMembers (groupId : Nat) (sids : List JsString) : (setMembers ctx groupId sids).Only (groupStatement cm ctx) :=
  .bind (only_query trivial) fun _ => only_addMembers groupId sids

theorem only_recomputeRoles (userIds : List Nat) : (recomputeRoles cm ctx userIds).Only (groupStatement cm ctx) := by
  rw [recomputeRoles]
  induction userIds.eraseDups with
  | nil => trivial
  | cons userId rest ih => exact .bind (only_query rfl) fun names => .bind (only_query ⟨rfl,names,rfl⟩) fun _ => ih

theorem only_patchGroupOp (groupId : Nat) (op : PatchOp) : (patchGroupOp cm ctx groupId op).Only (groupStatement cm ctx) := by
  rw [patchGroupOp]
  refine .ite (.ite (only_addMembers _ _) (.ite (only_removeMembers _ _) (.ite ?_ trivial))) (.ite ?_ trivial)
  · exact .bind (only_query trivial) fun _ => .bind (only_setMembers _ _) fun _ => trivial
  · split
    · trivial
    · exact .bind (only_query trivial) fun _ => only_query trivial

theorem only_patchGroupOps (groupId : Nat) (operations : List PatchOp) :
    (patchGroupOps cm ctx groupId operations).Only (groupStatement cm ctx) := by
  induction operations with
  | nil => trivial
  | cons op rest ih => exact .bind (only_patchGroupOp groupId op) fun _ => .bind ih fun _ => trivial

theorem only_loadGroup (id : JsString) : (loadGroup ctx id).Only (groupStatement cm ctx) := by
  rw [loadGroup]
  split
  · trivial
  · refine .bind (only_query rfl) fun row => ?_
    cases row with
    | none => trivial
    | some row => trivial

theorem within_createUser (body : ScimUser) (newUserId newId : Nat) :
    (createUser cm ctx body newUserId newId).Within (userStatement ctx) := by
  rw [createUser]
  refine .ite (.bind trivial fun _ => ?_) ?_
  all_goals
    refine .bind (within_query rfl) fun existing => ?_
    cases existing with
    | some _ => trivial
    | none =>
      refine Only.tx (.bind (only_resolveLocalUser _ _ _) fun userId => .bind (only_query ⟨rfl,rfl⟩) fun _ => ?_)
      exact .bind (only_query rfl) fun _ => .ite (.bind (only_query trivial) fun _ => trivial) trivial

theorem within_replaceUser (id : JsString) (body : ScimUser) : (replaceUser ctx id body).Within (userStatement ctx) := by
  refine .bind (only_loadUser id).within fun row => Only.tx (.bind (only_query trivial) fun _ => ?_)
  exact .bind (only_applyActive _ _) fun _ => .ite (only_query trivial) trivial

theorem within_patchUser (id : JsString) (operations : List PatchOp) :
    (patchUser cm ctx id operations).Within (userStatement ctx) :=
  .bind (only_loadUser id).within fun _ => Only.tx (.bind (only_query trivial) fun _ => only_applyActive _ _)

theorem within_deleteUser (id : JsString) : (deleteUser ctx id).Within (userStatement ctx) :=
  .bind (only_loadUser id).within fun _ => Only.tx (.bind (only_query trivial) fun _ => .ite (only_query trivial) trivial)

theorem within_createGroup (body : ScimGroup) (newId : Nat) : (createGroup cm ctx body newId).Within (groupStatement cm ctx) := by
  rw [createGroup]
  refine .ite (.bind trivial fun _ => ?_) ?_
  all_goals
    refine .bind (within_query rfl) fun existing => ?_
    cases existing with
    | some _ => trivial
    | none =>
      refine Only.tx (.bind (only_query rfl) fun _ => .bind (only_setMembers _ _) fun memberIds => ?_)
      exact .bind (only_recomputeRoles memberIds) fun _ => trivial

theorem within_patchGroup (id : JsString) (operations : List PatchOp) :
    (patchGroup cm ctx id operations).Within (groupStatement cm ctx) := by
  refine .bind (only_loadGroup id).within fun group => .bind (Only.tx ?_) fun _ => (only_loadGroup id).within
  exact .bind (only_patchGroupOps _ operations) fun touched => only_recomputeRoles touched

theorem within_replaceGroup (id : JsString) (body : ScimGroup) : (replaceGroup cm ctx id body).Within (groupStatement cm ctx) := by
  refine .bind (only_loadGroup id).within fun group => .bind (Only.tx ?_) fun _ => (only_loadGroup id).within
  have hmembers : (query (.memberUserIds group.id) >>= fun before : List Nat => setMembers ctx group.id body.members >>=
      fun after => recomputeRoles cm ctx (before ++ after)).Only (groupStatement cm ctx) :=
    .bind (only_query trivial) fun _ => .bind (only_setMembers _ _) fun _ => only_recomputeRoles _
  dsimp only
  split
  · exact .bind (only_query trivial) fun _ => hmembers
  · exact hmembers

theorem within_deleteGroup (id : JsString) : (deleteGroup cm ctx id).Within (groupStatement cm ctx) :=
  .bind (only_loadGroup id).within fun _ => Only.tx (.bind (only_query trivial) fun _ =>
    .bind (only_query trivial) fun _ => only_recomputeRoles _)

end ScimService

theorem within_ignore {α : Type} {S : Sql → Prop} {r : Request α} (h : Within S r) : Within S r.ignore := .bind h fun _ => trivial

variable {cm ctx}

theorem within_scim (d : Deployment) (now : Nat) (op : ScimOp) : ((op.call ctx).body d now).Within (scimStatement d.cm ctx) := by
  have husers : ∀ r : Request Unit, r.Within (userStatement ctx) → r.Within (scimStatement d.cm ctx) := fun _ hr => hr.mono fun _ => .inl
  have hgroups : ∀ r : Request Unit, r.Within (groupStatement d.cm ctx) → r.Within (scimStatement d.cm ctx) :=
    fun _ hr => hr.mono fun _ => .inr
  cases op with
  | createUser body newUserId newId => exact husers _ (within_ignore (ScimService.within_createUser body newUserId newId))
  | replaceUser id body => exact husers _ (ScimService.within_replaceUser id body)
  | patchUser id operations => exact husers _ (ScimService.within_patchUser id operations)
  | deleteUser id => exact husers _ (ScimService.within_deleteUser id)
  | createGroup body newId => exact hgroups _ (within_ignore (ScimService.within_createGroup body newId))
  | replaceGroup id body => exact hgroups _ (within_ignore (ScimService.within_replaceGroup id body))
  | patchGroup id operations => exact hgroups _ (within_ignore (ScimService.within_patchGroup id operations))
  | deleteGroup id => exact hgroups _ (ScimService.within_deleteGroup id)

end Scim

section Ldap
variable (cm : CaseMapping) (row : DirectoryRow)

def ldapStatement : Sql → Prop
  | .ldapLink directoryId _ | .ldapLinks directoryId => directoryId = row.id
  | .upsertLdapIdentity i => i.directoryId = row.id
  | .upsertMember m => m.orgId = row.orgId ∧ ∃ groups, m.role = resolveRole cm groups row.groupRoleMap row.defaultRole
  | .userByEmail _ | .insertUser _ | .activateUser _ _ | .suspendActive _ => True
  | _ => False

namespace LdapService
variable {cm row} {expand : List JsString → List JsString}

theorem within_applyUser (user : MappedUser) (email : JsString) (newId : Nat) :
    (applyUser cm row expand user email newId).Within (ldapStatement cm row) := by
  refine Only.tx (.bind (.bind (only_query rfl) fun linked => ?_) fun found => ?_)
  · cases linked with
    | some userId => trivial
    | none =>
      refine .bind (only_query trivial) fun existing => ?_
      cases existing with
      | some existing => trivial
      | none => exact .bind (only_query trivial) fun _ => trivial
  · exact .bind (only_query trivial) fun _ => .bind (only_query ⟨rfl,_,rfl⟩) fun _ => .bind (only_query rfl) fun _ => trivial

theorem within_applySnapshot (users : List MappedUser) (newId : JsString → Nat) :
    (applySnapshot cm row expand users newId).Within (ldapStatement cm row) := by
  have husers : ∀ counts, (applyUsers cm row expand newId counts users).Within (ldapStatement cm row) := by
    induction users with
    | nil => exact fun _ => trivial
    | cons user rest ih =>
      intro counts
      rw [applyUsers]
      split
      · exact ih counts
      · exact .bind (within_applyUser user _ _) fun _ => ih _
  have hdeactivate : ∀ seen counts stale, (deactivate seen counts stale).Within (ldapStatement cm row) := by
    intro seen counts stale
    induction stale generalizing counts with
    | nil => trivial
    | cons identity rest ih => exact .ite (ih counts) (.bind (within_query trivial) fun _ => ih _)
  exact .bind (husers _) fun counts => .ite (.bind (within_query rfl) fun stale => hdeactivate _ _ _) trivial

end LdapService

variable {cm row}

theorem within_sync (d : Deployment) (now : Nat) (snapshot : Snapshot) :
    ((row.sync snapshot).body d now).Within (ldapStatement d.cm row) :=
  within_ignore (LdapService.within_applySnapshot snapshot.users snapshot.newId)

end Ldap

section Sso
variable (provider : ProviderRow)

def ssoStatement : Sql → Prop
  | .linkedUser providerId _ => providerId = provider.id
  | .insertIdentity i => i.providerId = provider.id
  | .insertMember m => m.orgId = provider.orgId ∧ m.role = provider.defaultRole
  | .userByEmail _ | .insertUser _ | .insertSession _ => True
  | _ => False

variable {provider}

theorem within_ssoLogin (d : Deployment) (now : Nat) (a : Assertion) (draw : Draw) :
    ((DirectoryCall.ssoLogin provider a draw).body d now).Within (ssoStatement provider) := by
  have hexisting : ∀ identity, (SsoService.existingUser identity).Only (ssoStatement provider) := by
    intro identity
    rw [SsoService.existingUser]
    split
    · exact only_query trivial
    · trivial
  have hmatch : ∀ identity, (SsoService.matchAccount provider identity draw.userId).Only (ssoStatement provider) := by
    intro identity
    refine .bind (hexisting identity) fun existing => ?_
    cases existing with
    | some u => exact .ite trivial trivial
    | none =>
      refine .ite trivial ?_
      split
      · trivial
      · exact .bind (only_query trivial) fun _ => trivial
  refine .ite (within_ignore (.bind (Only.tx (.bind (only_query rfl) fun linked => ?_)) fun userId =>
    .bind (within_query trivial) fun _ => trivial)) trivial
  cases linked with
  | some u => exact .ite trivial trivial
  | none =>
    exact .bind (hmatch _) fun userId => .bind (only_query ⟨rfl,rfl⟩) fun _ => .bind (only_query rfl) fun _ => trivial

end Sso
end JustMail.Accounts
