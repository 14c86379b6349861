import JustMail.Accounts.LastOwner
import JustMail.Accounts.DirectoryStatements

/-! Who makes owners. Adding a member, changing a role and inviting ask for an owner where the
new role is `owner`; saving the roles that SCIM, LDAP and SSO hand out asks for an admin. -/
namespace JustMail.Accounts
open Foundation Postfix Program

/-- Neither the default role nor a mapped one is `owner`. -/
def NamesNoOwner (defaultRole : OrgRole) (roleMap : List (JsString × OrgRole)) : Prop :=
  defaultRole ≠ .owner ∧ ∀ entry ∈ roleMap, entry.2 ≠ .owner

instance (defaultRole : OrgRole) (roleMap : List (JsString × OrgRole)) : Decidable (NamesNoOwner defaultRole roleMap) :=
  inferInstanceAs (Decidable (_ ∧ _))

theorem mappedRole_ne_owner (cm : CaseMapping) {roleMap : List (JsString × OrgRole)} (h : ∀ entry ∈ roleMap, entry.2 ≠ .owner)
    (group : JsString) : mappedRole cm roleMap group ≠ some .owner := by
  intro howner
  obtain ⟨entry,hfind,hrole⟩ := Option.map_eq_some_iff.mp howner
  exact h entry (List.mem_reverse.mp (List.mem_of_find?_eq_some hfind)) hrole

theorem resolveRole_ne_owner (cm : CaseMapping) (groups : List JsString) {roleMap : List (JsString × OrgRole)} {defaultRole : OrgRole}
    (h : NamesNoOwner defaultRole roleMap) : resolveRole cm groups roleMap defaultRole ≠ .owner := by
  -- the best role so far is no owner's at any point of the fold
  have hbest : ∀ best : Option OrgRole, best ≠ some .owner →
      groups.foldl (fun best g => ((mappedRole cm roleMap g).map (betterRole best)).or best) best ≠ some .owner := by
    induction groups with
    | nil => exact fun best hbest => hbest
    | cons g groups ih =>
      intro best hbest
      refine ih _ ?_
      have hmapped := mappedRole_ne_owner cm h.2 g
      dsimp only
      cases hg : mappedRole cm roleMap g with
      | none => exact hbest
      | some role =>
        rw [hg] at hmapped
        cases best with
        | none => exact hmapped
        | some best =>
          rw [Option.map_some,Option.some_or,betterRole]
          split
          · exact hmapped
          · exact hbest
  rw [resolveRole]
  cases hfold : groups.foldl (fun best g => ((mappedRole cm roleMap g).map (betterRole best)).or best) none with
  | none => exact h.1
  | some role =>
    intro howner
    have hrole := hbest none (by simp)
    rw [hfold] at hrole
    exact hrole (congrArg some howner)

theorem roleFromScopes_ne_owner (scopes : List JsString) : roleFromScopes scopes ≠ .owner := by
  rw [roleFromScopes]
  split
  · decide
  · split
    · decide
    · split
      · decide
      · decide

section Requests
variable {orgId : Nat} {start db db' : DirectoryDb} {q : Sql}

def Sql.grants : Sql → Option (Nat × Nat)
  | .upsertMember m | .insertMember m => if m.role = .owner then some m.key else none
  | .updateMemberRole orgId userId role => if role = .owner then some (orgId,userId) else none
  | _ => none

theorem grantedTo_of_eval {t : DirectoryTables} {w : RowWrite} (hw : w ∈ (q.eval t).2) :
    w.grantedTo = none ∨ w.grantedTo = q.grants := by
  cases q with
  | upsertMember m =>
    rw [List.mem_singleton.mp hw]
    exact .inr rfl
  | insertMember m =>
    rw [List.mem_singleton.mp hw]
    exact .inr rfl
  | updateMemberRole orgId userId role =>
    rw [List.mem_singleton.mp hw]
    exact .inr rfl
  | clearGroup groupId =>
    obtain ⟨m,-,rfl⟩ := List.mem_map.mp hw
    exact .inl rfl
  | reactivateUser userId =>
    rw [Sql.eval] at hw
    split at hw
    · rw [List.mem_singleton.mp hw]
      exact .inl rfl
    · simp at hw
  | suspendActive userId =>
    rw [Sql.eval] at hw
    split at hw
    · rw [List.mem_singleton.mp hw]
      exact .inl rfl
    · simp at hw
  | _ =>
    left
    simp only [Sql.eval,List.mem_singleton,List.not_mem_nil] at hw
    try rw [hw]
    try rfl

/-- Nobody is an owner who was none at the start, and no open invite makes one. -/
structure Ungained (orgId : Nat) (start db : DirectoryDb) : Prop where
  owners : ∀ userId, IsOwner db.members (orgId,userId) → IsOwner start.members (orgId,userId)
  invites : ∀ i ∈ db.val.accounts.invites.rows, i.orgId = orgId → i.acceptedAt = none → i.role ≠ .owner

theorem AccountDb.upsertMember_invites {a a' : AccountDb} {m : MemberRow} (h : a.upsertMember m = some a') :
    a'.invites = a.invites := by
  rw [AccountDb.upsertMember] at h
  split at h
  · rw [← Option.some.inj h]
  · simp at h

theorem AccountWrite.open_invites {a a' : AccountDb} {w : AccountWrite} (h : w.apply a = some a') {i : InviteRow}
    (hi : i ∈ a'.invites.rows) (hopen : i.acceptedAt = none) : i ∈ a.invites.rows := by
  cases w with
  | insertUser u =>
    rw [AccountWrite.apply,AccountDb.insertUser] at h
    split at h
    · rwa [← Option.some.inj h] at hi
    · simp at h
  | upsertMember m => rwa [(AccountDb.upsertMember_invites h)] at hi
  | insertMember m =>
    rw [AccountWrite.apply,AccountDb.insertMember] at h
    split at h
    · rwa [← Option.some.inj h] at hi
    · rwa [AccountDb.upsertMember_invites h] at hi
  | acceptInvite inviteId now =>
    rw [← Option.some.inj h] at hi
    obtain ⟨i',hi',rfl⟩ := List.mem_map.mp hi
    split at hopen
    · simp at hopen
    · rename_i hother
      rwa [if_neg hother]
  | insertSession s =>
    rw [AccountWrite.apply,AccountDb.insertSession] at h
    split at h
    · rwa [← Option.some.inj h] at hi
    · simp at h
  | insertIdentity j =>
    rw [AccountWrite.apply,AccountDb.insertIdentity] at h
    split at h
    · rwa [← Option.some.inj h] at hi
    · simp at h
  | _ => rwa [← Option.some.inj h] at hi

theorem Ungained.write (hdb : Ungained orgId start db) {w : RowWrite} (hw : ∀ userId, w.grantedTo ≠ some (orgId,userId))
    (h : w.apply db = some db') : Ungained orgId start db' := by
  constructor
  · intro userId howner
    refine hdb.owners userId ?_
    by_contra hnot
    exact not_isOwner_stays h (hw userId) hnot howner
  · intro i hi horg hopen
    rcases RowWrite.apply_cases h with ⟨v,rfl,hv⟩ | ⟨-,-,hsame⟩
    · exact hdb.invites i (AccountWrite.open_invites hv hi hopen) horg hopen
    · rw [hsame] at hi
      exact hdb.invites i hi horg hopen

theorem Ungained.statement (hdb : Ungained orgId start db) (hq : ∀ userId, q.grants ≠ some (orgId,userId))
    (h : directoryDatabase.land db (q.eval db.val).2 = some db') : Ungained orgId start db' := by
  refine @Database.land_invariant directoryDatabase (Ungained orgId start) _ _ _ (fun w hw db db' hdb hrow => ?_) h hdb
  refine hdb.write (fun userId hgrant => ?_) hrow
  rcases grantedTo_of_eval hw with hnone | hsome
  · simp [hnone] at hgrant
  · exact hq userId (hsome ▸ hgrant)

theorem keeps_of_grants {α : Type} {S : Sql → Prop} {r : Request α} (hr : r.Within S)
    (hS : ∀ q, S q → ∀ userId, q.grants ≠ some (orgId,userId)) : r.Keeps (Ungained orgId start) fun _ => True :=
  Within.keeps hr fun q hq _ _ hdb hland => hdb.statement (hS q hq) hland

theorem grants_member {m : MemberRow} {org : Nat} (hm : m.orgId = org) (hrole : org = orgId → m.role ≠ .owner) (userId : Nat) :
    (if m.role = .owner then some m.key else none) ≠ some (orgId,userId) := by
  intro h
  split at h
  · rename_i howner
    exact hrole (hm.symm.trans (Prod.mk.inj (Option.some.inj h)).1) howner
  · simp at h

theorem keeps_scim (d : Deployment) (now : Nat) {ctx : ScimContext}
    (hctx : ctx.orgId = orgId → NamesNoOwner ctx.defaultRole ctx.groupRoleMap)
    (op : ScimOp) : ((op.call ctx).body d now).Keeps (Ungained orgId start) fun _ => True := by
  refine keeps_of_grants (within_scim d now op) fun q hq userId => ?_
  cases q with
  | upsertMember m =>
    obtain ⟨hm,names,hrole⟩ := hq.resolve_left id
    exact grants_member hm (fun horg => hrole ▸ resolveRole_ne_owner d.cm names (hctx horg)) userId
  | insertMember m =>
    obtain ⟨hm,hrole⟩ := hq.resolve_right id
    exact grants_member hm (fun horg => hrole ▸ (hctx horg).1) userId
  | updateMemberRole _ _ _ => exact hq.elim id id |>.elim
  | _ => simp [Sql.grants]

theorem keeps_sync (d : Deployment) (now : Nat) {row : DirectoryRow}
    (hrow : row.orgId = orgId → NamesNoOwner row.defaultRole row.groupRoleMap)
    (snapshot : Snapshot) : ((row.sync snapshot).body d now).Keeps (Ungained orgId start) fun _ => True := by
  refine keeps_of_grants (within_sync d now snapshot) fun q hq userId => ?_
  cases q with
  | upsertMember m =>
    obtain ⟨hm,names,hrole⟩ := hq
    exact grants_member hm (fun horg => hrole ▸ resolveRole_ne_owner d.cm names (hrow horg)) userId
  | insertMember m => exact hq.elim
  | updateMemberRole _ _ _ => exact hq.elim
  | _ => simp [Sql.grants]

theorem keeps_ssoLogin (d : Deployment) (now : Nat) {provider : ProviderRow}
    (hprovider : provider.orgId = orgId → provider.defaultRole ≠ .owner) (a : Assertion) (draw : Draw) :
    ((DirectoryCall.ssoLogin provider a draw).body d now).Keeps (Ungained orgId start) fun _ => True := by
  refine keeps_of_grants (within_ssoLogin d now a draw) fun q hq userId => ?_
  cases q with
  | upsertMember m => exact hq.elim
  | insertMember m => exact grants_member hq.1 (fun horg => hq.2 ▸ hprovider horg) userId
  | updateMemberRole _ _ _ => exact hq.elim
  | _ => simp [Sql.grants]

theorem keeps_query {R : q.Result → Prop} (hq : ∀ userId, q.grants ≠ some (orgId,userId))
    (hR : ∀ db : DirectoryDb, Ungained orgId start db → R (q.eval db.val).1) : (query q).Keeps (Ungained orgId start) R :=
  Keeps.query fun _ _ hdb hland => ⟨hdb.statement hq hland,hR _ hdb⟩

theorem keeps_ungranting (hq : q.grants = none) : (query q).Keeps (Ungained orgId start) fun _ => True :=
  keeps_query (fun _ => by simp [hq]) fun _ _ => trivial

theorem keeps_elsewhere (hq : ∀ userId, q.grants ≠ some (orgId,userId)) : (query q).Keeps (Ungained orgId start) fun _ => True :=
  keeps_query hq fun _ _ => trivial

theorem keeps_requireRole (now org actorId : Nat) (minRole : OrgRole) (hactor : org = orgId → ¬IsOwner start.members (orgId,actorId)) :
    (OrgsService.requireRole now org actorId minRole).Keeps (Ungained orgId start) fun role => org = orgId → role ≠ .owner := by
  refine .bind (R := fun member => ∀ role ∈ member, org = orgId → role ≠ .owner)
    (keeps_query (by simp [Sql.grants]) ?_) fun member hmember => ?_
  · rintro db hdb role hrole rfl howner
    rw [howner] at hrole
    exact hactor rfl (hdb.owners actorId hrole)
  · have hcheck : ∀ role : Option OrgRole, (∀ r ∈ role, org = orgId → r ≠ .owner) →
        (OrgsService.checkRole minRole role).Keeps (Ungained orgId start) fun role => org = orgId → role ≠ .owner := by
      intro role hrole
      cases role with
      | none => trivial
      | some role => exact .ite (fun _ => trivial) fun _ => hrole role rfl
    cases member with
    | some role => exact hcheck (some role) hmember
    | none =>
      refine .bind (keeps_ungranting rfl) fun key _ => hcheck _ ?_
      rintro role hkey -
      obtain ⟨k,-,rfl⟩ := Option.map_eq_some_iff.mp hkey
      exact roleFromScopes_ne_owner k.scopes

theorem keeps_guardLastOwner (org userId : Nat) : (OrgsService.guardLastOwner org userId).Keeps (Ungained orgId start) fun _ => True :=
  .bind (keeps_ungranting rfl) fun _ _ => .ite (fun _ => trivial) fun _ => trivial

theorem keeps_updateMember (now org actorId userId : Nat) (role : OrgRole)
    (hactor : org = orgId → ¬IsOwner start.members (orgId,actorId)) :
    (OrgsService.updateMember now actorId org userId role).Keeps (Ungained orgId start) fun _ => True := by
  refine .bind (keeps_requireRole now org actorId .admin hactor) fun actorRole hrole => .ite (fun _ => trivial) fun hgrant => ?_
  refine .bind (keeps_guardLastOwner org userId) fun _ _ => .bind (keeps_elsewhere fun u hu => ?_) fun changed _ => ?_
  · rw [Sql.grants] at hu
    split at hu
    · rename_i howner
      cases hu
      exact hgrant ⟨howner,hrole rfl⟩
    · simp at hu
  · exact .ite (fun _ => trivial) fun _ => trivial

theorem keeps_removeMember (now org actorId userId : Nat) (hactor : org = orgId → ¬IsOwner start.members (orgId,actorId)) :
    (OrgsService.removeMember now actorId org userId).Keeps (Ungained orgId start) fun _ => True := by
  have hwrite : (OrgsService.guardLastOwner org userId >>= fun _ => query (.deleteMember org userId) >>= fun changed : Bool =>
      if !changed then fail .memberNotFound else Pure.pure ()).Keeps (Ungained orgId start) fun _ => True :=
    .bind (keeps_guardLastOwner org userId) fun _ _ => .bind (keeps_ungranting rfl) fun _ _ => .ite (fun _ => trivial) fun _ => trivial
  exact .ite (fun _ => .bind (keeps_requireRole now org actorId .admin hactor) fun _ _ => hwrite) fun _ => hwrite

/-- An invite that is still open makes no owner. -/
theorem keeps_loadPending (crypto : Crypto) (now : Nat) (token : JsString) :
    (InvitesService.loadPending crypto now token).Keeps (Ungained orgId start) fun invite => invite.orgId = orgId →
    invite.role ≠ .owner := by
  refine .bind (R := fun invite => ∀ i ∈ invite, i.orgId = orgId → i.acceptedAt = none → i.role ≠ .owner)
    (keeps_query (by simp [Sql.grants]) fun db hdb i hi => ?_) fun invite hinvite => ?_
  · exact hdb.invites i (Table.lookup_eq_some.mp hi).1
  · cases invite with
    | none => trivial
    | some invite =>
      refine .ite (fun _ => trivial) fun hopen => .ite (fun _ => trivial) fun _ horg => ?_
      exact hinvite invite rfl horg (by simpa using hopen)

theorem keeps_accept (crypto : Crypto) (ttl now : Nat) (token : JsString) (req : AcceptInviteRequest) (salt : JsString) (draw : Draw) :
    (InvitesService.accept crypto ttl now token req salt draw).Keeps (Ungained orgId start) fun _ => True := by
  refine .bind (keeps_loadPending crypto now token) fun invite hrole => .bind (keeps_ungranting rfl) fun existing _ => ?_
  have hmember : ∀ userId, (query (.upsertMember ⟨invite.orgId,userId,invite.role⟩) >>= fun _ =>
      query (.acceptInvite now invite.id) >>= fun _ => Pure.pure userId).Keeps (Ungained orgId start) fun _ => True :=
    fun userId => .bind (keeps_elsewhere (grants_member rfl hrole)) fun _ _ => .bind (keeps_ungranting rfl) fun _ _ => trivial
  refine .bind (.tx (R := fun _ => True) ?_) fun userId _ => .bind (keeps_ungranting rfl) fun _ _ => trivial
  cases existing with
  | some u => exact hmember u.id
  | none => exact .bind (keeps_ungranting rfl) fun _ _ => hmember draw.userId

end Requests

section Accounts
variable {db db' : AccountDb} {now orgId actorId : Nat} {role : OrgRole}

theorem requireRole_owner (h : requireRole db now orgId actorId .owner = .ok role) : IsOwner db.members (orgId,actorId) := by
  rw [requireRole] at h
  split at h
  · simp at h
  · rename_i found hfound
    split at h
    · simp at h
    · rename_i hrank
      obtain rfl : found = .owner := by
        cases found <;> simp [OrgRole.rank] at hrank ⊢
      rcases Option.or_eq_some_iff.mp hfound with hmember | ⟨-,hkey⟩
      · exact hmember
      · obtain ⟨k,-,hk⟩ := Option.map_eq_some_iff.mp hkey
        exact absurd hk (roleFromScopes_ne_owner k.scopes)

/-- The check that `addMember` and `createInvite` make of a new owner's role. -/
theorem ownerCheck {r : OrgRole}
    (h : (if role = .owner then requireRole db now orgId actorId .owner else .ok role) = .ok r) (hrole : role = .owner) :
    IsOwner db.members (orgId,actorId) := by
  rw [if_pos hrole] at h
  exact requireRole_owner h

theorem addMember_owner {email : JsString} (h : addMember db now actorId orgId email role = .ok db') :
    db'.invites = db.invites ∧ ∀ k, db'.roleOf k = some .owner →
      db.roleOf k = some .owner ∨ k.1 = orgId ∧ IsOwner db.members (orgId,actorId) := by
  rw [addMember] at h
  split at h
  · simp at h
  · split at h
    · simp at h
    · rename_i r hcheck
      split at h
      · simp at h
      · rename_i u hu
        split at h
        · simp at h
        · rename_i hnot
          cases hinsert : db.insertMember ⟨orgId,u.id,role⟩ with
          | none => simp [hinsert] at h
          | some inserted =>
            obtain rfl : inserted = db' := by simpa [hinsert] using h
            have hupsert : db.upsertMember ⟨orgId,u.id,role⟩ = some inserted := by
              rw [AccountDb.insertMember] at hinsert
              split at hinsert
              · rename_i hsome
                exact absurd hsome hnot
              · exact hinsert
            refine ⟨AccountDb.upsertMember_invites hupsert,fun k hk => ?_⟩
            rw [AccountDb.roleOf_upsertMember hupsert] at hk
            split at hk
            · rename_i hkey
              exact .inr ⟨by rw [hkey]; rfl,ownerCheck hcheck (Option.some.inj hk)⟩
            · exact .inl hk

theorem createInvite_owner {crypto : Crypto} {principal : SessionPrincipal} {req : CreateInviteRequest} {token : JsString}
    {inviteId : Nat} {invite : InviteRow} (h : createInvite crypto db now principal orgId req token inviteId = .ok (db',invite)) :
    db'.members = db.members ∧ ∀ i ∈ db'.invites.rows, i.role = .owner →
      i ∈ db.invites.rows ∨ i.orgId = orgId ∧ IsOwner db.members (orgId,principal.userId) := by
  rw [createInvite] at h
  split at h
  · simp at h
  · split at h
    · simp at h
    · rename_i r hcheck
      split at h
      · simp at h
      · dsimp only at h
        split at h
        · cases h
          refine ⟨rfl,fun i hi hrole => ?_⟩
          rcases List.mem_append.mp hi with hi | hi
          · exact .inl hi
          · rw [List.mem_singleton.mp hi] at hrole ⊢
            exact .inr ⟨rfl,ownerCheck hcheck hrole⟩
        · simp at h

theorem revoke_invites {principal : SessionPrincipal} {inviteId : Nat} (h : revoke db now principal orgId inviteId = .ok db') :
    db'.members = db.members ∧ ∀ i ∈ db'.invites.rows, i ∈ db.invites.rows := by
  rw [revoke] at h
  split at h
  · simp at h
  · split at h
    · cases h
      exact ⟨rfl,fun i hi => (List.mem_filter.mp hi).1⟩
    · simp at h

end Accounts

section Runs
variable {d : Deployment} {now orgId : Nat} {start : DirectoryDb} {s t : Tenancy}

/-- Nothing that is stored makes an owner: no open invite, and no role that SCIM, a directory
or a provider would hand out. -/
structure NoOwnerGrant (orgId : Nat) (s : Tenancy) : Prop where
  invites : ∀ i ∈ s.db.val.accounts.invites.rows, i.orgId = orgId → i.acceptedAt = none → i.role ≠ .owner
  scim : ∀ c ∈ s.scimConfigs.rows, c.orgId = orgId → NamesNoOwner c.defaultRole c.groupRoleMap
  directories : ∀ r ∈ s.directories.rows, r.orgId = orgId → NamesNoOwner r.defaultRole r.groupRoleMap
  providers : ∀ p ∈ s.providers.rows, p.orgId = orgId → p.defaultRole ≠ .owner

def ByNonOwner (orgId : Nat) (s : Tenancy) : TenantCall → Prop
  | .admin principal org _ => org = orgId → ¬IsOwner s.db.members (orgId,principal.userId)
  | _ => True

/-- The roles that the call configures do not include `owner`. -/
def AdminCall.NamesNoOwner : AdminCall → Prop
  | .updateScimConfig req => Accounts.NamesNoOwner req.defaultRole req.groupRoleMap
  | .createDirectory req _ | .updateDirectory _ req => Accounts.NamesNoOwner req.defaultRole req.groupRoleMap
  | .createProvider req _ | .updateProvider _ req => req.defaultRole ≠ .owner
  | _ => True

def ConfiguresNoOwner (orgId : Nat) : TenantCall → Prop
  | .admin _ org call => org = orgId → call.NamesNoOwner
  | _ => True

instance (orgId : Nat) (s : Tenancy) : (call : TenantCall) → Decidable (ByNonOwner orgId s call)
  | .admin principal org _ => inferInstanceAs (Decidable (org = orgId → ¬IsOwner s.db.members (orgId,principal.userId)))
  | .acceptInvite _ _ _ _ | .scim _ _ _ | .dueSync _ _ | .ssoLogin _ _ _ => inferInstanceAs (Decidable True)

instance : (call : AdminCall) → Decidable call.NamesNoOwner
  | .updateScimConfig req => inferInstanceAs (Decidable (Accounts.NamesNoOwner req.defaultRole req.groupRoleMap))
  | .createDirectory req _ | .updateDirectory _ req => inferInstanceAs (Decidable (Accounts.NamesNoOwner req.defaultRole req.groupRoleMap))
  | .createProvider req _ | .updateProvider _ req => inferInstanceAs (Decidable (req.defaultRole ≠ .owner))
  | .addMember _ _ | .updateMember _ _ | .removeMember _ | .createInvite _ _ _ | .revokeInvite _ | .generateToken _ | .revokeToken
  | .removeDirectory _ | .syncNow _ _ | .removeProvider _ => inferInstanceAs (Decidable True)

instance (orgId : Nat) : (call : TenantCall) → Decidable (ConfiguresNoOwner orgId call)
  | .admin _ org call => inferInstanceAs (Decidable (org = orgId → call.NamesNoOwner))
  | .acceptInvite _ _ _ _ | .scim _ _ _ | .dueSync _ _ | .ssoLogin _ _ _ => inferInstanceAs (Decidable True)

/-- Nobody has become an owner since the start, and nothing that is stored makes one. -/
def Quiet (orgId : Nat) (start : DirectoryDb) (s : Tenancy) : Prop :=
  (∀ userId, IsOwner s.db.members (orgId,userId) → IsOwner start.members (orgId,userId)) ∧ NoOwnerGrant orgId s

namespace Quiet

theorem ungained (h : Quiet orgId start s) : Ungained orgId start s.db := ⟨h.1,h.2.invites⟩

/-- What changes the tables of accounts alone. -/
theorem withDb (h : Quiet orgId start s) {db : DirectoryDb} (hdb : Ungained orgId start db) : Quiet orgId start { s with db := db } :=
  ⟨hdb.owners,hdb.invites,h.2.scim,h.2.directories,h.2.providers⟩

theorem request {call : DirectoryCall} (h : Quiet orgId start s) (hcall : (call.body d now).Keeps (Ungained orgId s.db) fun _ => True) :
    Quiet orgId start (s.request d now call) := by
  have hafter : Ungained orgId s.db ((call.body d now).after .database s.db) := hcall.after ⟨fun _ howner => howner,h.2.invites⟩
  exact h.withDb ⟨fun userId howner => h.1 userId (hafter.owners userId howner),hafter.invites⟩

theorem setAccounts (h : Quiet orgId start s) {accounts : AccountDb}
    (hroles : ∀ userId, accounts.roleOf (orgId,userId) = some .owner → s.db.val.accounts.roleOf (orgId,userId) = some .owner)
    (hinvites : ∀ i ∈ accounts.invites.rows, i.orgId = orgId → i.role = .owner → i ∈ s.db.val.accounts.invites.rows) :
    Quiet orgId start (s.setAccounts accounts) := by
  refine h.withDb ?_
  rcases s.db.withAccounts_cases accounts with hnew | hold
  · refine ⟨fun userId howner => h.1 userId (hroles userId ?_),fun i hi horg hopen hrole => ?_⟩
    · rw [← hnew]
      exact howner
    · rw [hnew] at hi
      exact h.2.invites i (hinvites i hi horg hrole) horg hopen hrole
  · rw [hold]
    exact h.ungained

theorem ensureConfig (h : Quiet orgId start s) (org : Nat) : ∀ c ∈ (Accounts.ensureConfig s.scimConfigs org).rows, c.orgId = orgId →
    NamesNoOwner c.defaultRole c.groupRoleMap := by
  intro c hc
  rw [Accounts.ensureConfig] at hc
  split at hc
  · exact h.2.scim c hc
  · have hlookup := Table.lookup_of_mem hc
    rw [Table.lookup_upsert] at hlookup
    split at hlookup
    · rw [← Option.some.inj hlookup]
      exact fun _ => ⟨by simp [ScimConfigRow.fresh],by simp [ScimConfigRow.fresh]⟩
    · exact h.2.scim c (Table.lookup_eq_some.mp hlookup).1

/-- A row that is updated is the old one, or the new one of the organisation that asked. -/
theorem scimConfigs (h : Quiet orgId start s) {configs : Table ScimConfigRow.orgId} {org : Nat} {f : ScimConfigRow → ScimConfigRow}
    {hf : ∀ c, (f c).orgId = c.orgId} (hconfigs : ∀ c ∈ configs.rows, c.orgId = orgId → NamesNoOwner c.defaultRole c.groupRoleMap)
    (hnew : org = orgId → ∀ c ∈ configs.rows, c.orgId = org → NamesNoOwner (f c).defaultRole (f c).groupRoleMap) :
    Quiet orgId start { s with scimConfigs := setConfig configs org f hf } := by
  refine ⟨h.1,h.2.invites,fun c hc horg => ?_,h.2.directories,h.2.providers⟩
  obtain ⟨c',hc',rfl⟩ := List.mem_map.mp hc
  split at horg
  · rename_i hmatch
    have hown : c'.orgId = org := by simpa using hmatch
    rw [if_pos hmatch]
    rw [hf] at horg
    exact hnew (hown.symm.trans horg) c' hc' hown
  · rename_i hmatch
    rw [if_neg hmatch]
    exact hconfigs c' hc' horg

theorem directories (h : Quiet orgId start s) {rows : Table DirectoryRow.id} {db : DirectoryDb} (hdb : Ungained orgId start db)
    (hrows : ∀ r ∈ rows.rows, r.orgId = orgId → NamesNoOwner r.defaultRole r.groupRoleMap) :
    Quiet orgId start { s with db := db, directories := rows } :=
  ⟨hdb.owners,hdb.invites,h.2.scim,hrows,h.2.providers⟩

theorem providers (h : Quiet orgId start s) {rows : Table ProviderRow.id}
    (hrows : ∀ p ∈ rows.rows, p.orgId = orgId → p.defaultRole ≠ .owner) : Quiet orgId start { s with providers := rows } :=
  ⟨h.1,h.2.invites,h.2.scim,h.2.directories,hrows⟩

end Quiet

theorem mem_of_insertRow {κ ρ : Type} [DecidableEq κ] {key : ρ → κ} {t t' : Table key} {r r' : ρ} (h : insertRow t r = some t')
    (hr' : r' ∈ t'.rows) : r' ∈ t.rows ∨ r' = r := by
  rw [insertRow] at h
  split at h
  · rw [← Option.some.inj h] at hr'
    simpa [Table.insert] using hr'
  · simp at h

section Configuration
variable {org id : Nat} (h : Quiet orgId start s)

include h

theorem quiet_createDirectory {req : LdapDirectoryRequest} {newId : Nat}
    (hreq : org = orgId → NamesNoOwner req.defaultRole req.groupRoleMap) (ht : s.createDirectory org req newId = .ok t) :
    Quiet orgId start t := by
  rw [Tenancy.createDirectory] at ht
  split at ht
  · simp at ht
  · rename_i rows hrows
    cases ht
    refine h.directories h.ungained fun r hr horg => ?_
    rcases mem_of_insertRow hrows hr with hr | rfl
    · exact h.2.directories r hr horg
    · exact hreq horg

theorem quiet_updateDirectory {req : LdapDirectoryRequest}
    (hreq : org = orgId → NamesNoOwner req.defaultRole req.groupRoleMap) (ht : s.updateDirectory org id req = .ok t) :
    Quiet orgId start t := by
  rw [Tenancy.updateDirectory] at ht
  split at ht
  · simp at ht
  · cases ht
    refine h.directories h.ungained fun r hr horg => ?_
    obtain ⟨r',hr',rfl⟩ := List.mem_map.mp hr
    split at horg
    · rename_i hmatch
      have hown : r'.id = id ∧ r'.orgId = org := by simpa using hmatch
      rw [if_pos hmatch]
      exact hreq (hown.2.symm.trans horg)
    · rename_i hmatch
      rw [if_neg hmatch]
      exact h.2.directories r' hr' horg

theorem quiet_removeDirectory (ht : s.removeDirectory org id = .ok t) : Quiet orgId start t := by
  rw [Tenancy.removeDirectory] at ht
  split at ht
  · simp at ht
  · cases ht
    exact h.directories ⟨h.1,h.2.invites⟩ fun r hr => h.2.directories r (List.mem_filter.mp hr).1

theorem quiet_sync {row : DirectoryRow} (hrow : row ∈ s.directories.rows) (snapshot : Snapshot) :
    Quiet orgId start (s.request d now (row.sync snapshot)) := h.request (keeps_sync d now (h.2.directories row hrow) snapshot)

theorem quiet_syncNow {snapshot : Snapshot} (ht : s.syncNow d now org id snapshot = .ok t) : Quiet orgId start t := by
  rw [Tenancy.syncNow] at ht
  split at ht
  · simp at ht
  · rename_i row hrow
    cases ht
    exact quiet_sync h (Table.lookup_eq_some.mp (Option.filter_eq_some_iff.mp hrow).1).1 snapshot

theorem quiet_createProvider {req : SsoProviderRequest} {newId : Nat} (hreq : org = orgId → req.defaultRole ≠ .owner)
    (ht : s.createProvider org req newId = .ok t) : Quiet orgId start t := by
  rw [Tenancy.createProvider] at ht
  split at ht
  · simp at ht
  · rename_i rows hrows
    cases ht
    refine h.providers fun p hp horg => ?_
    rcases mem_of_insertRow hrows hp with hp | rfl
    · exact h.2.providers p hp horg
    · exact hreq horg

theorem quiet_updateProvider {req : SsoProviderRequest} (hreq : org = orgId → req.defaultRole ≠ .owner)
    (ht : s.updateProvider org id req = .ok t) : Quiet orgId start t := by
  rw [Tenancy.updateProvider] at ht
  split at ht
  · simp at ht
  · split at ht
    · simp at ht
    · cases ht
      refine h.providers fun p hp horg => ?_
      obtain ⟨p',hp',rfl⟩ := List.mem_map.mp hp
      split at horg
      · rename_i hmatch
        have hown : p'.id = id ∧ p'.orgId = org := by simpa using hmatch
        rw [if_pos hmatch]
        exact hreq (hown.2.symm.trans horg)
      · rename_i hmatch
        rw [if_neg hmatch]
        exact h.2.providers p' hp' horg

theorem quiet_removeProvider (ht : s.removeProvider org id = .ok t) : Quiet orgId start t := by
  rw [Tenancy.removeProvider] at ht
  split at ht
  · simp at ht
  · cases ht
    have haccounts : Quiet orgId start (s.setAccounts (s.db.val.accounts.dropProvider id)) :=
      h.setAccounts (fun _ howner => howner) fun i hi _ _ => hi
    exact haccounts.providers fun p hp => h.2.providers p (List.mem_filter.mp hp).1

end Configuration

theorem quiet_asAdmin {org actorId : Nat} {change : Except TenancyError Tenancy} (hchange : ∀ t, change = .ok t → Quiet orgId start t)
    (ht : s.asAdmin now org actorId change = .ok t) : Quiet orgId start t := by
  rw [Tenancy.asAdmin] at ht
  split at ht
  · simp at ht
  · exact hchange t ht

theorem map_eq_ok {ε α β : Type} {f : α → β} {r : Except ε α} {b : β} (h : r.map f = .ok b) : ∃ a, r = .ok a ∧ f a = b := by
  cases r with
  | error e => simp [Except.map] at h
  | ok a => exact ⟨a,rfl,Except.ok.inj h⟩

theorem mapError_eq_ok {ε ε' α : Type} {f : ε → ε'} {r : Except ε α} {a : α} (h : r.mapError f = .ok a) : r = .ok a := by
  cases r with
  | error e => simp [Except.mapError] at h
  | ok a' => rw [Except.ok.inj h]

/-- What principals who are no owners do, where they do not configure owners. -/
theorem quiet_admin {principal : SessionPrincipal} {org : Nat} {call : AdminCall} (h : Quiet orgId start s)
    (hactor : org = orgId → ¬IsOwner s.db.members (orgId,principal.userId)) (hcall : org = orgId → call.NamesNoOwner)
    (ht : s.admin d now principal org call = .ok t) : Quiet orgId start t := by
  cases call with
  | addMember email role =>
    obtain ⟨accounts,hadd,rfl⟩ := map_eq_ok ht
    obtain ⟨hinvites,hroles⟩ := addMember_owner hadd
    refine h.setAccounts (fun userId howner => ?_) fun i hi _ _ => hinvites ▸ hi
    rcases hroles _ howner with hbefore | ⟨horg,hauthor⟩
    · exact hbefore
    · obtain rfl : orgId = org := horg
      exact absurd hauthor (hactor rfl)
  | updateMember userId role =>
    cases ht
    exact h.request (keeps_updateMember now org principal.userId userId role hactor)
  | removeMember userId =>
    cases ht
    exact h.request (keeps_removeMember now org principal.userId userId hactor)
  | createInvite req token inviteId =>
    obtain ⟨⟨accounts,invite⟩,hcreate,rfl⟩ := map_eq_ok (mapError_eq_ok ht)
    obtain ⟨hmembers,hinvites⟩ := createInvite_owner hcreate
    refine h.setAccounts (fun userId howner => ?_) fun i hi horg hrole => ?_
    · rw [AccountDb.roleOf,hmembers] at howner
      exact howner
    · rcases hinvites i hi hrole with hold | ⟨hown,hauthor⟩
      · exact hold
      · obtain rfl : orgId = org := horg.symm.trans hown
        exact absurd hauthor (hactor rfl)
  | revokeInvite inviteId =>
    obtain ⟨accounts,hrevoke,rfl⟩ := map_eq_ok (mapError_eq_ok ht)
    obtain ⟨hmembers,hinvites⟩ := revoke_invites hrevoke
    refine h.setAccounts (fun userId howner => ?_) fun i hi _ _ => hinvites i hi
    rw [AccountDb.roleOf,hmembers] at howner
    exact howner
  | updateScimConfig req =>
    refine quiet_asAdmin (fun t ht => ?_) ht
    cases ht
    exact h.scimConfigs (h.ensureConfig org) fun horg c _ _ => hcall horg
  | generateToken token =>
    refine quiet_asAdmin (fun t ht => ?_) ht
    cases ht
    exact h.scimConfigs (h.ensureConfig org) fun horg c hc hown => h.ensureConfig org c hc (hown.trans horg)
  | revokeToken =>
    refine quiet_asAdmin (fun t ht => ?_) ht
    cases ht
    exact h.scimConfigs h.2.scim fun horg c hc hown => h.2.scim c hc (hown.trans horg)
  | createDirectory req newId => exact quiet_asAdmin (fun t ht => quiet_createDirectory h hcall ht) ht
  | updateDirectory id req => exact quiet_asAdmin (fun t ht => quiet_updateDirectory h hcall ht) ht
  | removeDirectory id => exact quiet_asAdmin (fun t ht => quiet_removeDirectory h ht) ht
  | syncNow id snapshot => exact quiet_asAdmin (fun t ht => quiet_syncNow h ht) ht
  | createProvider req newId => exact quiet_asAdmin (fun t ht => quiet_createProvider h hcall ht) ht
  | updateProvider id req => exact quiet_asAdmin (fun t ht => quiet_updateProvider h hcall ht) ht
  | removeProvider id => exact quiet_asAdmin (fun t ht => quiet_removeProvider h ht) ht

theorem authenticate_ok {crypto : Crypto} {configs : Table ScimConfigRow.orgId} {org : Nat} {token : JsString} {ctx : ScimContext}
    (h : authenticate crypto configs org token = .ok ctx) :
    ∃ c, configs.lookup org = some c ∧ ctx = ⟨org,c.defaultRole,c.groupRoleMap,c.deactivate⟩ := by
  rw [authenticate] at h
  split at h
  · simp at h
  · rename_i c hc
    split at h
    · simp at h
    · split at h
      · exact ⟨c,(Option.filter_eq_some_iff.mp hc).1,(Except.ok.inj h).symm⟩
      · simp at h

theorem quiet_perform {call : TenantCall} (h : Quiet orgId start s) (hactor : ByNonOwner orgId s call)
    (hcall : ConfiguresNoOwner orgId call)
    (ht : s.perform d now call = .ok t) : Quiet orgId start t := by
  cases call with
  | admin principal org call => exact quiet_admin h hactor hcall ht
  | acceptInvite token req salt draw =>
    cases ht
    exact h.request (.bind (keeps_accept d.crypto d.ttl now token req salt draw) fun _ _ => trivial)
  | scim org token op =>
    obtain ⟨ctx,hctx,rfl⟩ := map_eq_ok ht
    refine h.request (keeps_scim d now (fun horg => ?_) op)
    obtain ⟨c,hc,hsame⟩ := authenticate_ok hctx
    rw [hsame] at horg ⊢
    obtain ⟨hmem,hown⟩ := Table.lookup_eq_some.mp hc
    exact h.2.scim c hmem (hown.trans horg)
  | dueSync directoryId snapshot =>
    rw [Tenancy.perform] at ht
    split at ht
    · simp at ht
    · rename_i row hrow
      cases ht
      exact quiet_sync h (Table.lookup_eq_some.mp hrow).1 snapshot
  | ssoLogin providerId a draw =>
    rw [Tenancy.perform] at ht
    split at ht
    · simp at ht
    · rename_i provider hprovider
      cases ht
      exact h.request (keeps_ssoLogin d now (h.2.providers provider (Table.lookup_eq_some.mp hprovider).1) a draw)

/-- In a run by principals who are no owners of the organisation, where nothing that is stored
at the start makes an owner and no roles that include `owner` are configured, nobody becomes
an owner. -/
theorem owners_not_gained (hs : NoOwnerGrant orgId s)
    (hrun : Run (Tenancy.step d) (fun s call => ByNonOwner orgId s call.2 ∧ ConfiguresNoOwner orgId call.2) s t) {userId : Nat}
    (howner : IsOwner t.db.members (orgId,userId)) : IsOwner s.db.members (orgId,userId) := by
  have hstep : ∀ s' call t', Quiet orgId s.db s' → ByNonOwner orgId s' call.2 ∧ ConfiguresNoOwner orgId call.2 →
      Tenancy.step d s' call = some t' → Quiet orgId s.db t' := by
    intro s' call t' h hallowed ht
    rw [Tenancy.step] at ht
    cases hperform : s'.perform d call.1 call.2 with
    | error e => simp [hperform,Except.toOption] at ht
    | ok t'' =>
      rw [hperform] at ht
      cases ht
      exact quiet_perform h hallowed.1 hallowed.2 hperform
  have hquiet : Quiet orgId s.db t := hrun.invariant hstep ⟨fun _ h => h,hs⟩
  exact hquiet.1 userId howner

/-- An organisation with an owner and an admin, and nothing configured. -/
def ownerAndAdmin : Tenancy := ⟨twoMembersDb .owner .admin,.empty,.empty,.empty⟩

/-- The admin saves SCIM settings, makes a token, and a client with the token adds a user. -/
def scimByAdmin (defaultRole : OrgRole) : List (Nat × TenantCall) :=
  let admin : SessionPrincipal := ⟨2,js "b@x.y",js "B",none,none⟩
  [(0,.admin admin 1 (.updateScimConfig ⟨true,defaultRole,[],true⟩)),(0,.admin admin 1 (.generateToken (js "scim_t"))),
    (0,.scim 1 (js "scim_t") (.createUser ⟨some (js "c@x.y"),none,none,none,[],none⟩ 9 5))]

theorem noOwnerGrant_ownerAndAdmin : NoOwnerGrant 1 ownerAndAdmin where
  invites := by decide
  scim := by decide
  directories := fun r hr => absurd hr (List.not_mem_nil)
  providers := by decide

theorem scim_member_no_owner : ∃ t, Run (Tenancy.step plainDeployment)
    (fun s call => ByNonOwner 1 s call.2 ∧ ConfiguresNoOwner 1 call.2) ownerAndAdmin t ∧
    t.db.members.lookup (1,9) = some ⟨1,9,.member⟩ ∧
    ∀ userId, IsOwner t.db.members (1,userId) → IsOwner ownerAndAdmin.db.members (1,userId) := by
  have hactions : (runActions (Tenancy.step plainDeployment) (fun s call => ByNonOwner 1 s call.2 ∧ ConfiguresNoOwner 1 call.2)
      ownerAndAdmin (scimByAdmin .member)).map (·.db.members.lookup (1,9)) = some (some ⟨1,9,.member⟩) := by decide
  obtain ⟨t,ht,hmember⟩ := Option.map_eq_some_iff.mp hactions
  have hrun := Run.of_actions ht
  exact ⟨t,hrun,hmember,fun userId => owners_not_gained noOwnerGrant_ownerAndAdmin hrun⟩

/-- The admin, who is no owner, has made one. -/
theorem admin_makes_owner : NoOwnerGrant 1 ownerAndAdmin ∧ ¬IsOwner ownerAndAdmin.db.members (1,9) ∧
    ∃ t, Run (Tenancy.step plainDeployment) (fun s call => ByNonOwner 1 s call.2) ownerAndAdmin t ∧ IsOwner t.db.members (1,9) := by
  have hactions : (runActions (Tenancy.step plainDeployment) (fun s call => ByNonOwner 1 s call.2) ownerAndAdmin (scimByAdmin .owner)).map
      (fun t => decide (IsOwner t.db.members (1,9))) = some true := by decide
  obtain ⟨t,ht,howner⟩ := Option.map_eq_some_iff.mp hactions
  exact ⟨noOwnerGrant_ownerAndAdmin,by decide,t,.of_actions ht,of_decide_eq_true howner⟩

end Runs
end JustMail.Accounts
