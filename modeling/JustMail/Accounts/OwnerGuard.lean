import JustMail.Accounts.Memberships

/-! Where `guardLastOwner` stands in the requests: `updateMember` and `removeMember` write
a row of `org_members` right after it, and nobody else uses these statements. -/
namespace JustMail.Accounts
open Foundation Postfix OrgsService

section Guarding
variable {α β : Type}

/-- The member whose row a statement of `updateMember` or `removeMember` writes. -/
def Sql.target : Sql → Option (Nat × Nat)
  | .updateMemberRole orgId userId _ | .deleteMember orgId userId => some (orgId,userId)
  | _ => none

/-- The member whose row is written next. -/
def due : Request α → Option (Nat × Nat)
  | .stmt q _ => Sql.target q
  | _ => none

/-- The statement is the guard, and it lets the member pass. -/
def Clears (k : Nat × Nat) : (q : Sql) → q.Result → Prop
  | .lastOwnerRow orgId userId, row => (orgId,userId) = k ∧ refuses row = false
  | _, _ => False

/-- Every write that becomes due does so right after its guard. -/
def GuardsWrites : Request α → Prop
  | .pure _ | .throw _ => True
  | .stmt q next => ∀ r, GuardsWrites (next r) ∧ ∀ k, due (next r) = some k → Clears k q r
  | .begin next | .commit next => GuardsWrites next ∧ due next = none

/-- So does the whole request, from its start. -/
def Guarded (r : Request α) : Prop := due r = none ∧ GuardsWrites r

theorem guarded_pure (a : α) : Guarded (pure a : Request α) := ⟨rfl,trivial⟩

theorem guarded_fail (e : ApiError) : Guarded (fail e : Request α) := ⟨rfl,trivial⟩

theorem guarded_query {q : Sql} (h : q.target = none) : Guarded (query q) :=
  ⟨h,fun _ => ⟨trivial,fun k hk => absurd hk (by simp [due])⟩⟩

theorem due_bind {f : α → Request β} (hf : ∀ a, due (f a) = none) (r : Request α) : due (r >>= f) = due r := by
  cases r with
  | pure a => exact hf a
  | _ => rfl

theorem Guarded.bind {r : Request α} {f : α → Request β} (hr : Guarded r) (hf : ∀ a, Guarded (f a)) : Guarded (r >>= f) := by
  have hdue := due_bind fun a => (hf a).1
  refine ⟨(hdue r).trans hr.1,?_⟩
  replace hr := hr.2
  induction r with
  | pure a => exact (hf a).2
  | throw e => trivial
  | stmt q next ih => exact fun x => ⟨ih x (hr x).1,fun k hk => (hr x).2 k ((hdue (next x)).symm.trans hk)⟩
  | begin next ih => exact ⟨ih hr.1,(hdue next).trans hr.2⟩
  | commit next ih => exact ⟨ih hr.1,(hdue next).trans hr.2⟩

theorem guarded_transaction {r : Request α} (hr : Guarded r) : Guarded (transaction r) := by
  have hcommit : Guarded (r >>= fun a => (.commit (.pure a) : Request α)) := hr.bind fun a => ⟨rfl,trivial,rfl⟩
  exact ⟨rfl,hcommit.2,hcommit.1⟩

theorem guarded_write {orgId userId : Nat} {q : Sql} (hq : q.target = some (orgId,userId)) {f : q.Result → Request α}
    (hf : ∀ r, Guarded (f r)) : Guarded (guardLastOwner orgId userId >>= fun _ => query q >>= f) := by
  refine ⟨rfl,fun row => ?_⟩
  let rest : Request α := (if refuses row then fail .lastOwner else pure ()) >>= fun _ => query q >>= f
  change GuardsWrites rest ∧ ∀ k, due rest = some k → (orgId,userId) = k ∧ refuses row = false
  by_cases hrow : refuses row = true
  · have hrest : rest = fail .lastOwner := by
      dsimp only [rest]
      rw [if_pos hrow]
      rfl
    rw [hrest]
    exact ⟨trivial,fun k hk => absurd hk (by simp [fail,due])⟩
  · have hrest : rest = .stmt q f := by
      dsimp only [rest]
      rw [if_neg hrow]
      rfl
    rw [hrest]
    refine ⟨fun r => ⟨(hf r).2,fun k hk => absurd ((hf r).1.symm.trans hk) (by simp)⟩,fun k hk => ?_⟩
    exact ⟨Option.some.inj (hq.symm.trans hk),by simpa using hrow⟩

theorem guarded_ite {c : Prop} [Decidable c] {r r' : Request α} (h : Guarded r) (h' : Guarded r') :
    Guarded (if c then r else r') := by
  split
  · exact h
  · exact h'

theorem guarded_requireRole (now orgId userId : Nat) (minRole : OrgRole) :
    Guarded (OrgsService.requireRole now orgId userId minRole) := by
  have hrole : ∀ role, Guarded (checkRole minRole role) := by
    intro role
    cases role with
    | none => exact guarded_fail _
    | some role => exact guarded_ite (guarded_fail _) (guarded_pure role)
  refine .bind (guarded_query rfl) fun member => ?_
  cases member with
  | some role => exact .bind (guarded_pure _) hrole
  | none => exact .bind (guarded_query rfl) fun key => .bind (guarded_pure _) hrole

theorem guarded_updateMember (now actorId orgId userId : Nat) (role : OrgRole) :
    Guarded (updateMember now actorId orgId userId role) := by
  have hwrite : Guarded (guardLastOwner orgId userId >>= fun _ => query (.updateMemberRole orgId userId role) >>=
      fun changed : Bool => if !changed then fail .memberNotFound else pure ()) :=
    guarded_write rfl fun changed => guarded_ite (guarded_fail _) (guarded_pure ())
  refine .bind (guarded_requireRole now orgId actorId .admin) fun actorRole => ?_
  exact guarded_ite (.bind (guarded_fail _) fun _ => hwrite) hwrite

theorem guarded_removeMember (now actorId orgId userId : Nat) : Guarded (removeMember now actorId orgId userId) := by
  have hwrite : Guarded (guardLastOwner orgId userId >>= fun _ => query (.deleteMember orgId userId) >>=
      fun changed : Bool => if !changed then fail .memberNotFound else pure ()) :=
    guarded_write rfl fun changed => guarded_ite (guarded_fail _) (guarded_pure ())
  exact guarded_ite (.bind (guarded_requireRole now orgId actorId .admin) fun _ => hwrite) hwrite

theorem guarded_accept (crypto : Crypto) (ttl now : Nat) (token : JsString) (req : AcceptInviteRequest) (salt : JsString)
    (draw : Draw) : Guarded (InvitesService.accept crypto ttl now token req salt draw) := by
  have hload : Guarded (InvitesService.loadPending crypto now token) := by
    refine .bind (guarded_query rfl) fun invite => ?_
    cases invite with
    | none => exact guarded_fail _
    | some invite => exact guarded_ite (guarded_fail _) (guarded_ite (guarded_fail _) (guarded_pure invite))
  refine .bind hload fun invite => .bind (guarded_query rfl) fun existing => ?_
  refine .bind (guarded_transaction ?_) fun userId => .bind (guarded_query rfl) fun _ => guarded_pure userId
  have hmember : ∀ userId, Guarded (query (.upsertMember ⟨invite.orgId,userId,invite.role⟩) >>= fun _ =>
      query (.acceptInvite now invite.id) >>= fun _ => pure userId) :=
    fun userId => .bind (guarded_query rfl) fun _ => .bind (guarded_query rfl) fun _ => guarded_pure userId
  cases existing with
  | some u => exact hmember u.id
  | none => exact .bind (guarded_query rfl) fun _ => hmember draw.userId

theorem guarded_provisionAndSession (crypto : Crypto) (ttl now : Nat) (provider : ProviderRow) (identity : Identity) (draw : Draw) :
    Guarded (SsoService.provisionAndSession crypto ttl now provider identity draw) := by
  have hexisting : Guarded (SsoService.existingUser identity) := by
    rw [SsoService.existingUser]
    split
    · exact guarded_query rfl
    · exact guarded_pure none
  have hmatch : Guarded (SsoService.matchAccount provider identity draw.userId) := by
    refine .bind hexisting fun existing => ?_
    cases existing with
    | some u => exact guarded_ite (guarded_fail _) (guarded_pure u.id)
    | none =>
      refine guarded_ite (guarded_fail _) ?_
      split
      · exact guarded_fail _
      · exact .bind (guarded_query rfl) fun _ => guarded_pure _
  refine .bind (guarded_transaction (.bind (guarded_query rfl) fun linked => ?_)) fun userId =>
    .bind (guarded_query rfl) fun _ => guarded_pure userId
  cases linked with
  | some u => exact guarded_ite (guarded_fail _) (guarded_pure _)
  | none =>
    exact .bind hmatch fun userId => .bind (guarded_query rfl) fun _ => .bind (guarded_query rfl) fun _ => guarded_pure userId

namespace ScimService
variable (cm : CaseMapping) (ctx : ScimContext)

theorem guarded_loadUser (id : JsString) : Guarded (loadUser ctx id) := by
  rw [loadUser]
  split
  · exact guarded_fail _
  · refine .bind (guarded_query rfl) fun row => ?_
    cases row with
    | none => exact guarded_fail _
    | some row => exact guarded_pure row

theorem guarded_applyActive (userId : Nat) (active : Bool) : Guarded (applyActive userId active) :=
  guarded_ite (guarded_query rfl) (guarded_query rfl)

theorem guarded_createUser (body : ScimUser) (newUserId newId : Nat) : Guarded (createUser cm ctx body newUserId newId) := by
  have hlocal : ∀ email displayName, Guarded (resolveLocalUser email displayName newUserId) := by
    intro email displayName
    refine .bind (guarded_query rfl) fun found => ?_
    cases found with
    | some found => exact guarded_pure found.id
    | none => exact .bind (guarded_query rfl) fun _ => guarded_pure _
  rw [createUser]
  refine guarded_ite (.bind (guarded_fail _) fun _ => ?_) ?_
  all_goals
    refine .bind (guarded_query rfl) fun existing => ?_
    cases existing with
    | some _ => exact guarded_fail _
    | none =>
      refine guarded_transaction (.bind (hlocal _ _) fun userId => ?_)
      refine .bind (guarded_query rfl) fun _ => .bind (guarded_query rfl) fun _ => ?_
      exact guarded_ite (.bind (guarded_query rfl) fun _ => guarded_pure _) (guarded_pure _)

theorem guarded_replaceUser (id : JsString) (body : ScimUser) : Guarded (replaceUser ctx id body) := by
  refine .bind (guarded_loadUser ctx id) fun row => guarded_transaction (.bind (guarded_query rfl) fun _ => ?_)
  exact .bind (guarded_applyActive _ _) fun _ => guarded_ite (guarded_query rfl) (guarded_pure ())

theorem guarded_patchUser (id : JsString) (operations : List PatchOp) : Guarded (patchUser cm ctx id operations) :=
  .bind (guarded_loadUser ctx id) fun _ => guarded_transaction (.bind (guarded_query rfl) fun _ => guarded_applyActive _ _)

theorem guarded_deleteUser (id : JsString) : Guarded (deleteUser ctx id) :=
  .bind (guarded_loadUser ctx id) fun _ =>
    guarded_transaction (.bind (guarded_query rfl) fun _ => guarded_ite (guarded_query rfl) (guarded_pure ()))

theorem guarded_loadGroup (id : JsString) : Guarded (loadGroup ctx id) := by
  rw [loadGroup]
  split
  · exact guarded_fail _
  · refine .bind (guarded_query rfl) fun row => ?_
    cases row with
    | none => exact guarded_fail _
    | some row => exact guarded_pure row

theorem guarded_addMembers (groupId : Nat) (sids : List JsString) : Guarded (addMembers ctx groupId sids) := by
  induction sids with
  | nil => exact guarded_pure []
  | cons sid rest ih =>
    rw [addMembers]
    split
    · exact ih
    · refine .bind (guarded_query rfl) fun found => ?_
      cases found with
      | none => exact ih
      | some found => exact .bind (guarded_query rfl) fun _ => .bind ih fun _ => guarded_pure _

theorem guarded_removeMembers (groupId : Nat) (sids : List JsString) : Guarded (removeMembers ctx groupId sids) := by
  induction sids with
  | nil => exact guarded_pure []
  | cons sid rest ih =>
    rw [removeMembers]
    split
    · exact ih
    · exact .bind (guarded_query rfl) fun _ => .bind (guarded_query rfl) fun _ => .bind ih fun _ => guarded_pure _

theorem guarded_setMembers (groupId : Nat) (sids : List JsString) : Guarded (setMembers ctx groupId sids) :=
  .bind (guarded_query rfl) fun _ => guarded_addMembers ctx groupId sids

theorem guarded_recomputeRoles (userIds : List Nat) : Guarded (recomputeRoles cm ctx userIds) := by
  rw [recomputeRoles]
  induction userIds.eraseDups with
  | nil => exact guarded_pure ()
  | cons userId rest ih => exact .bind (guarded_query rfl) fun _ => .bind (guarded_query rfl) fun _ => ih

theorem guarded_createGroup (body : ScimGroup) (newId : Nat) : Guarded (createGroup cm ctx body newId) := by
  rw [createGroup]
  refine guarded_ite (.bind (guarded_fail _) fun _ => ?_) ?_
  all_goals
    refine .bind (guarded_query rfl) fun existing => ?_
    cases existing with
    | some _ => exact guarded_fail _
    | none =>
      refine guarded_transaction (.bind (guarded_query rfl) fun _ => .bind (guarded_setMembers ctx _ _) fun memberIds => ?_)
      exact .bind (guarded_recomputeRoles cm ctx memberIds) fun _ => guarded_pure _

theorem guarded_patchGroupOp (groupId : Nat) (op : PatchOp) : Guarded (patchGroupOp cm ctx groupId op) := by
  rw [patchGroupOp]
  refine guarded_ite (guarded_ite (guarded_addMembers ctx _ _) (guarded_ite (guarded_removeMembers ctx _ _) ?_))
    (guarded_ite ?_ (guarded_pure []))
  · refine guarded_ite ?_ (guarded_pure [])
    exact .bind (guarded_query rfl) fun _ => .bind (guarded_setMembers ctx _ _) fun _ => guarded_pure _
  · split
    · exact guarded_pure []
    · exact .bind (guarded_query rfl) fun _ => guarded_query rfl

theorem guarded_patchGroup (id : JsString) (operations : List PatchOp) : Guarded (patchGroup cm ctx id operations) := by
  have hops : ∀ groupId, Guarded (patchGroupOps cm ctx groupId operations) := by
    intro groupId
    induction operations with
    | nil => exact guarded_pure []
    | cons op rest ih => exact .bind (guarded_patchGroupOp cm ctx groupId op) fun _ => .bind ih fun _ => guarded_pure _
  refine .bind (guarded_loadGroup ctx id) fun group => ?_
  refine .bind (guarded_transaction ?_) fun _ => guarded_loadGroup ctx id
  exact .bind (hops group.id) fun touched => guarded_recomputeRoles cm ctx touched

theorem guarded_replaceGroup (id : JsString) (body : ScimGroup) : Guarded (replaceGroup cm ctx id body) := by
  refine .bind (guarded_loadGroup ctx id) fun group => ?_
  refine .bind (guarded_transaction ?_) fun _ => guarded_loadGroup ctx id
  have hmembers : Guarded (query (.memberUserIds group.id) >>= fun before : List Nat => setMembers ctx group.id body.members >>=
      fun after => recomputeRoles cm ctx (before ++ after)) :=
    .bind (guarded_query rfl) fun _ => .bind (guarded_setMembers ctx _ _) fun _ => guarded_recomputeRoles cm ctx _
  dsimp only
  split
  · exact .bind (guarded_query rfl) fun _ => hmembers
  · exact hmembers

theorem guarded_deleteGroup (id : JsString) : Guarded (deleteGroup cm ctx id) :=
  .bind (guarded_loadGroup ctx id) fun _ => guarded_transaction (.bind (guarded_query rfl) fun _ =>
    .bind (guarded_query rfl) fun _ => guarded_recomputeRoles cm ctx _)

end ScimService

namespace LdapService
variable (cm : CaseMapping) (row : DirectoryRow) (expand : List JsString → List JsString)

theorem guarded_applyUser (user : MappedUser) (email : JsString) (newId : Nat) :
    Guarded (applyUser cm row expand user email newId) := by
  refine guarded_transaction (.bind (.bind (guarded_query rfl) fun linked => ?_) fun found => ?_)
  · cases linked with
    | some userId => exact guarded_pure _
    | none =>
      refine .bind (guarded_query rfl) fun existing => ?_
      cases existing with
      | some existing => exact guarded_pure _
      | none => exact .bind (guarded_query rfl) fun _ => guarded_pure _
  · exact .bind (guarded_query rfl) fun _ => .bind (guarded_query rfl) fun _ => .bind (guarded_query rfl) fun _ => guarded_pure _

theorem guarded_applySnapshot (users : List MappedUser) (newId : JsString → Nat) :
    Guarded (applySnapshot cm row expand users newId) := by
  have husers : ∀ counts, Guarded (applyUsers cm row expand newId counts users) := by
    induction users with
    | nil => exact fun counts => guarded_pure counts
    | cons user rest ih =>
      intro counts
      rw [applyUsers]
      split
      · exact ih counts
      · exact .bind (guarded_applyUser cm row expand user _ _) fun _ => ih _
  have hdeactivate : ∀ seen counts stale, Guarded (deactivate seen counts stale) := by
    intro seen counts stale
    induction stale generalizing counts with
    | nil => exact guarded_pure counts
    | cons identity rest ih => exact guarded_ite (ih counts) (.bind (guarded_query rfl) fun _ => ih _)
  refine .bind (husers _) fun counts => ?_
  exact guarded_ite (.bind (guarded_query rfl) fun stale => hdeactivate _ _ _) (guarded_pure counts)

end LdapService

theorem guarded_body (d : Deployment) (now : Nat) (call : DirectoryCall) : Guarded (call.body d now) := by
  have hignore : ∀ {α : Type} {r : Request α}, Guarded r → Guarded r.ignore := fun hr => .bind hr fun _ => guarded_pure ()
  cases call with
  | updateMember actorId orgId userId role => exact guarded_updateMember now actorId orgId userId role
  | removeMember actorId orgId userId => exact guarded_removeMember now actorId orgId userId
  | acceptInvite token req salt draw => exact hignore (guarded_accept d.crypto d.ttl now token req salt draw)
  | ssoLogin provider a draw =>
    exact guarded_ite (hignore (guarded_provisionAndSession d.crypto d.ttl now provider _ draw)) (guarded_fail _)
  | scimCreateUser ctx body newUserId newId => exact hignore (ScimService.guarded_createUser d.cm ctx body newUserId newId)
  | scimReplaceUser ctx id body => exact ScimService.guarded_replaceUser ctx id body
  | scimPatchUser ctx id operations => exact ScimService.guarded_patchUser d.cm ctx id operations
  | scimDeleteUser ctx id => exact ScimService.guarded_deleteUser ctx id
  | scimCreateGroup ctx body newId => exact hignore (ScimService.guarded_createGroup d.cm ctx body newId)
  | scimReplaceGroup ctx id body => exact hignore (ScimService.guarded_replaceGroup d.cm ctx id body)
  | scimPatchGroup ctx id operations => exact hignore (ScimService.guarded_patchGroup d.cm ctx id operations)
  | scimDeleteGroup ctx id => exact ScimService.guarded_deleteGroup d.cm ctx id
  | ldapSync row expand users newId => exact hignore (LdapService.guarded_applySnapshot d.cm row expand users newId)

end Guarding

end JustMail.Accounts
