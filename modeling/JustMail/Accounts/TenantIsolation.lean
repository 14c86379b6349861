import JustMail.Accounts.DirectoryEffects

/-! Directory provisioning of one organisation, seen from another. Roles are rows of one
organisation; accounts are shared, and `users.status` with them. -/
namespace JustMail.Accounts
open Foundation Postfix Program

section Model

/-- A request of a SCIM client, or a sync of a directory. -/
inductive ProvisioningCall where
  | scim (ctx : ScimContext) (op : ScimOp)
  | ldap (row : DirectoryRow) (snapshot : Snapshot)

def ProvisioningCall.orgId : ProvisioningCall → Nat
  | .scim ctx _ => ctx.orgId
  | .ldap row _ => row.orgId

def ProvisioningCall.call : ProvisioningCall → DirectoryCall
  | .scim ctx op => op.call ctx
  | .ldap row snapshot => row.sync snapshot

/-- Calls come one after the other. None of them reads the time. -/
def provisionStep (d : Deployment) (db : DirectoryDb) (call : ProvisioningCall) : Option DirectoryDb :=
  some ((call.call.body d 0).after .database db)

variable (db : DirectoryDb)

def DirectoryDb.isMember (orgId userId : Nat) : Prop := (db.val.accounts.roleOf (orgId,userId)).isSome = true

def DirectoryDb.statusOf (userId : Nat) : Option UserStatus := (db.val.accounts.users.lookup userId).map (·.status)

/-- Logins and sessions ask for `status = 'active'`. -/
def DirectoryDb.canAuthenticate (userId : Nat) : Prop := db.statusOf userId = some .active

instance (orgId userId : Nat) : Decidable (db.isMember orgId userId) := inferInstanceAs (Decidable (_ = _))

instance (userId : Nat) : Decidable (db.canAuthenticate userId) := inferInstanceAs (Decidable (_ = _))

/-- The members of the organisation have the same roles, and the same of them can authenticate. -/
def SameFor (orgId : Nat) (db db' : DirectoryDb) : Prop :=
  ∀ userId, db'.val.accounts.roleOf (orgId,userId) = db.val.accounts.roleOf (orgId,userId) ∧
    (db.isMember orgId userId → (db'.canAuthenticate userId ↔ db.canAuthenticate userId))

end Model

section Conditions
variable (cm : CaseMapping) (orgId : Nat) (db : DirectoryDb)

/-- The account is no member's, or the flag says what its status says. -/
def FlagAgrees (userId : Nat) (active : Bool) : Prop :=
  db.isMember orgId userId → db.statusOf userId ≠ some (if active then .suspended else .active)

/-- The flag that `createUser` writes is for an account with the e-mail of the body, those of
`replaceUser` and `patchUser` are for the account behind the id, and a deletion suspends it. -/
def ScimOp.Spares (ctx : ScimContext) : ScimOp → Prop
  | .createUser body _ _ => body.active = some false →
      ∀ u ∈ db.val.accounts.userByEmail ((primaryEmail cm body).getD (trim (body.userName.getD []))), FlagAgrees orgId db u.id false
  | .replaceUser id body => ∀ row ∈ scimAccount db ctx id, FlagAgrees orgId db row.userId (body.active.getD true)
  | .patchUser id operations => ∀ row ∈ scimAccount db ctx id,
      FlagAgrees orgId db row.userId (operations.foldl (ScimService.patchUserField cm) row).active
  | .deleteUser id => ctx.deactivate = true → ∀ row ∈ scimAccount db ctx id, FlagAgrees orgId db row.userId false
  | _ => True

/-- The DNs of the entries that have an e-mail. -/
def seenDns (users : List MappedUser) : List JsString := (users.filter fun u => (given u.email).isSome).map (·.externalId)

/-- The account that an entry is linked to, or whose e-mail it has. -/
def entryAccount (directoryId : Nat) (user : MappedUser) (email : JsString) : Option Nat :=
  match (db.val.ldapIdentities.lookup (directoryId,user.externalId)).map (·.userId) with
  | some userId => some userId
  | none => (db.val.accounts.userByEmail email).map (·.id)

/-- Members whom an entry names are active already, and those with a link to a DN that is not
seen are not. -/
def Snapshot.Spares (row : DirectoryRow) (snapshot : Snapshot) : Prop :=
  (∀ user ∈ snapshot.users, ∀ email ∈ given user.email, ∀ userId ∈ entryAccount db row.id user email,
    db.isMember orgId userId → db.canAuthenticate userId) ∧
  (row.deactivateMissing = true → ∀ link ∈ db.val.ldapIdentities.rows, link.directoryId = row.id →
    link.externalId ∉ seenDns snapshot.users → FlagAgrees orgId db link.userId false)

/-- A call writes no status that differs from the one a member of the organisation has. -/
def SparesMembers (call : ProvisioningCall) : Prop :=
  match call with
  | .scim ctx op => op.Spares cm orgId db ctx
  | .ldap row snapshot => snapshot.Spares orgId db row

instance (userId : Nat) (active : Bool) : Decidable (FlagAgrees orgId db userId active) :=
  inferInstanceAs (Decidable (_ → _ ≠ _))

instance (ctx : ScimContext) : (op : ScimOp) → Decidable (op.Spares cm orgId db ctx)
  | .createUser body _ _ => inferInstanceAs (Decidable (body.active = some false →
      ∀ u ∈ db.val.accounts.userByEmail ((primaryEmail cm body).getD (trim (body.userName.getD []))), FlagAgrees orgId db u.id false))
  | .replaceUser id body =>
      inferInstanceAs (Decidable (∀ row ∈ scimAccount db ctx id, FlagAgrees orgId db row.userId (body.active.getD true)))
  | .patchUser id operations => inferInstanceAs (Decidable (∀ row ∈ scimAccount db ctx id,
      FlagAgrees orgId db row.userId (operations.foldl (ScimService.patchUserField cm) row).active))
  | .deleteUser id => inferInstanceAs
      (Decidable (ctx.deactivate = true → ∀ row ∈ scimAccount db ctx id, FlagAgrees orgId db row.userId false))
  | .createGroup _ _ | .replaceGroup _ _ | .patchGroup _ _ | .deleteGroup _ => inferInstanceAs (Decidable True)

instance (row : DirectoryRow) (snapshot : Snapshot) : Decidable (snapshot.Spares orgId db row) :=
  inferInstanceAs (Decidable ((∀ user ∈ snapshot.users, ∀ email ∈ given user.email, ∀ userId ∈ entryAccount db row.id user email,
    db.isMember orgId userId → db.canAuthenticate userId) ∧ (row.deactivateMissing = true → ∀ link ∈ db.val.ldapIdentities.rows,
    link.directoryId = row.id → link.externalId ∉ seenDns snapshot.users → FlagAgrees orgId db link.userId false)))

instance : (call : ProvisioningCall) → Decidable (SparesMembers cm orgId db call)
  | .scim ctx op => inferInstanceAs (Decidable (op.Spares cm orgId db ctx))
  | .ldap row snapshot => inferInstanceAs (Decidable (snapshot.Spares orgId db row))

end Conditions

section Held
variable {orgId userId : Nat} {start db db' : DirectoryDb} {w : AccountWrite}

/-- As at the start: the roles of the organisation, and which of its members can authenticate
and with which address. -/
structure Held (orgId : Nat) (start db : DirectoryDb) : Prop where
  roles : ∀ userId, db.val.accounts.roleOf (orgId,userId) = start.val.accounts.roleOf (orgId,userId)
  active : ∀ userId, start.isMember orgId userId → (db.canAuthenticate userId ↔ start.canAuthenticate userId)
  emails : ∀ userId, start.isMember orgId userId →
    (db.val.accounts.users.lookup userId).map (·.email) = (start.val.accounts.users.lookup userId).map (·.email)
  collation : db.val.accounts.collation = start.val.accounts.collation

/-- Rows of other organisations, and a status that a member has already. -/
def AccountWrite.Spares (orgId : Nat) (start : DirectoryDb) : AccountWrite → Prop
  | .upsertMember m | .insertMember m => m.orgId ≠ orgId
  | .setMemberRole org _ _ | .deleteMember org _ => org ≠ orgId
  | .updateUser userId _ status => ∀ s ∈ status, start.isMember orgId userId → (s = .active ↔ start.canAuthenticate userId)
  | _ => True

theorem AccountWrite.roleAfter_other (hw : w.Spares orgId start) (userId : Nat) (old : Option OrgRole) :
    w.roleAfter (orgId,userId) old = old := by
  cases w with
  | upsertMember m => exact if_neg fun h => hw (Prod.mk.inj h).1.symm
  | insertMember m => exact if_neg fun h => hw (Prod.mk.inj h).1.symm
  | setMemberRole org user role => exact if_neg fun h => hw (Prod.mk.inj h).1.symm
  | deleteMember org user => exact if_neg fun h => hw (Prod.mk.inj h).1.symm
  | _ => rfl

theorem Held.refl (orgId : Nat) (db : DirectoryDb) : Held orgId db db := ⟨fun _ => rfl,fun _ _ => Iff.rfl,fun _ _ => rfl,rfl⟩

theorem Held.accounts (hdb : Held orgId start db) (h : db'.val.accounts = db.val.accounts) : Held orgId start db' := by
  obtain ⟨hroles,hactive,hemails,hcollation⟩ := hdb
  refine ⟨fun u => by rw [h]; exact hroles u,fun u hu => ?_,fun u hu => by rw [h]; exact hemails u hu,h ▸ hcollation⟩
  rw [DirectoryDb.canAuthenticate,DirectoryDb.statusOf,h]
  exact hactive u hu

/-- A member's account exists, so a new one is nobody's of the organisation. -/
theorem Held.not_fresh (hdb : Held orgId start db) (hfresh : db.val.accounts.users.lookup userId = none) :
    ¬start.isMember orgId userId := by
  intro hmember
  rw [DirectoryDb.isMember,← hdb.roles] at hmember
  obtain ⟨u,hu⟩ := AccountDb.member_user hmember
  simp [hfresh] at hu

theorem Held.user_write (hdb : Held orgId start db) (h : w.apply db.val.accounts = some db'.val.accounts)
    (hmember : start.isMember orgId userId) :
    db'.val.accounts.users.lookup userId = db.val.accounts.users.lookup userId ∨
    ∃ name status, w = .updateUser userId name status ∧
      db'.val.accounts.users.lookup userId = (db.val.accounts.users.lookup userId).map (·.updated name status) := by
  have husers := AccountWrite.users_apply h userId
  cases w with
  | insertUser u =>
    rw [AccountWrite.userAfter,if_neg] at husers
    · exact .inl husers
    · rintro rfl
      exact hdb.not_fresh (AccountWrite.insertUser_fresh h) hmember
  | updateUser target name status =>
    cases hold : db.val.accounts.users.lookup userId with
    | none =>
      rw [hold] at husers
      exact .inl husers
    | some u =>
      have hid : u.id = userId := Table.key_of_lookup hold
      rw [hold,AccountWrite.userAfter,Option.map_some] at husers
      split at husers
      · rename_i htarget
        obtain rfl : userId = target := hid.symm.trans (eq_of_beq htarget)
        exact .inr ⟨name,status,rfl,husers⟩
      · exact .inl husers
  | _ => exact .inl husers

theorem Held.write (hdb : Held orgId start db) (hw : w.Spares orgId start)
    (h : w.apply db.val.accounts = some db'.val.accounts) : Held orgId start db' := by
  refine ⟨fun userId => ?_,fun userId hmember => ?_,fun userId hmember => ?_,(AccountWrite.collation_apply h).trans hdb.collation⟩
  · rw [AccountWrite.roleOf_apply h,AccountWrite.roleAfter_other hw]
    exact hdb.roles userId
  · rw [← hdb.active userId hmember,DirectoryDb.canAuthenticate,DirectoryDb.canAuthenticate,DirectoryDb.statusOf,DirectoryDb.statusOf]
    rcases hdb.user_write h hmember with hsame | ⟨name,status,rfl,hupdated⟩
    · rw [hsame]
    · rw [hupdated]
      cases hold : db.val.accounts.users.lookup userId with
      | none => rfl
      | some u =>
        cases status with
        | none => rfl
        | some s =>
          have hs := hw s rfl hmember
          rw [← hdb.active userId hmember,DirectoryDb.canAuthenticate,DirectoryDb.statusOf,hold] at hs
          simpa [UserRow.updated] using hs
  · rw [← hdb.emails userId hmember]
    rcases hdb.user_write h hmember with hsame | ⟨name,status,-,hupdated⟩
    · rw [hsame]
    · rw [hupdated,Option.map_map]
      rfl

/-- The statement writes rows of other organisations, and for a member a status it has already. -/
def Sql.Spares (orgId : Nat) (start : DirectoryDb) : Sql → Prop
  | .upsertMember m | .insertMember m => m.orgId ≠ orgId
  | .updateMemberRole org _ _ | .deleteMember org _ => org ≠ orgId
  | .suspendUser userId | .suspendActive userId => start.isMember orgId userId → ¬start.canAuthenticate userId
  | .activateUser userId _ | .reactivateUser userId => start.isMember orgId userId → start.canAuthenticate userId
  | _ => True

theorem spares_status {name : Option JsString} {s : UserStatus}
    (h : start.isMember orgId userId → (s = .active ↔ start.canAuthenticate userId)) :
    (AccountWrite.updateUser userId name (some s)).Spares orgId start := by
  rintro s' hs' hmember
  cases hs'
  exact h hmember

theorem spares_of_eval {q : Sql} (hq : q.Spares orgId start) {t : DirectoryTables}
    (hw : RowWrite.account w ∈ (q.eval t).2) : w.Spares orgId start := by
  have hone : ∀ {v : AccountWrite}, RowWrite.account w ∈ [RowWrite.account v] → v.Spares orgId start → w.Spares orgId start := by
    intro v hw hv
    rw [RowWrite.account.inj (List.mem_singleton.mp hw)]
    exact hv
  have hsuspend : ∀ userId, (start.isMember orgId userId → ¬start.canAuthenticate userId) →
      (AccountWrite.updateUser userId none (some .suspended)).Spares orgId start :=
    fun userId h => spares_status fun hmember => iff_of_false (by simp) (h hmember)
  cases q with
  | suspendUser userId => exact hone hw (hsuspend userId hq)
  | suspendActive userId =>
    rw [Sql.eval] at hw
    split at hw
    · exact hone hw (hsuspend userId hq)
    · simp at hw
  | activateUser userId name => exact hone hw (spares_status fun hmember => iff_of_true rfl (hq hmember))
  | reactivateUser userId =>
    rw [Sql.eval] at hw
    dsimp only at hw
    split at hw
    · exact hone hw (spares_status fun hmember => iff_of_true rfl (hq hmember))
    · simp at hw
  | renameUser userId name => exact hone hw (fun s hs => by simp at hs)
  | upsertMember m => exact hone hw hq
  | insertMember m => exact hone hw hq
  | updateMemberRole org userId role => exact hone hw hq
  | deleteMember org userId => exact hone hw hq
  | insertUser u => exact hone hw trivial
  | insertSession s => exact hone hw trivial
  | acceptInvite now inviteId => exact hone hw trivial
  | insertIdentity i => exact hone hw trivial
  | _ => simp [Sql.eval] at hw

theorem Held.statement (hdb : Held orgId start db) {q : Sql} (hq : q.Spares orgId start)
    (h : directoryDatabase.land db (q.eval db.val).2 = some db') : Held orgId start db' := by
  refine @Database.land_invariant directoryDatabase (Held orgId start) _ _ _ (fun w hw db db' hdb hrow => ?_) h hdb
  rcases RowWrite.apply_cases hrow with ⟨v,rfl,hv⟩ | ⟨-,-,hsame⟩
  · exact hdb.write (spares_of_eval hq hw) hv
  · exact hdb.accounts hsame

theorem keeps_spared {q : Sql} (hq : q.Spares orgId start) : (query q).Keeps (Held orgId start) fun _ => True :=
  Keeps.query fun _ _ hdb hland => ⟨hdb.statement hq hland,trivial⟩

/-- An account that is found by its e-mail had that e-mail at the start. -/
theorem Held.userByEmail (hdb : Held orgId start db) {email : JsString} {u : UserRow}
    (hu : db.val.accounts.userByEmail email = some u) (hmember : start.isMember orgId u.id) :
    ∃ u', start.val.accounts.userByEmail email = some u' ∧ u'.id = u.id := by
  obtain ⟨hmem,hemail⟩ := AccountDb.userByEmail_eq_some.mp hu
  have hsame := hdb.emails u.id hmember
  rw [Table.lookup_of_mem hmem,Option.map_some] at hsame
  obtain ⟨u',hu',hemail'⟩ := Option.map_eq_some_iff.mp hsame.symm
  obtain ⟨hmem',hid⟩ := Table.lookup_eq_some.mp hu'
  rw [AccountDb.lower,hdb.collation] at hemail
  exact ⟨u',AccountDb.userByEmail_eq_some.mpr ⟨hmem',hemail' ▸ hemail⟩,hid⟩

end Held

section Scim
variable {cm : CaseMapping} {ctx : ScimContext} {orgId userId : Nat} {start db : DirectoryDb} {active : Bool}

theorem held_groups (hother : ctx.orgId ≠ orgId) {r : Request Unit} (hr : r.Within (groupStatement cm ctx)) :
    Held orgId start (r.after .database start) := by
  refine (Within.keeps hr fun q hq _ _ hdb hland => hdb.statement ?_ hland).after (Held.refl orgId start)
  cases q with
  | upsertMember m => exact fun h => hother (hq.1.symm.trans h)
  | insertMember m => exact hq.elim
  | updateMemberRole _ _ _ => exact hq.elim
  | deleteMember _ _ => exact hq.elim
  | suspendUser _ => exact hq.elim
  | suspendActive _ => exact hq.elim
  | activateUser _ _ => exact hq.elim
  | reactivateUser _ => exact hq.elim
  | _ => trivial

theorem reactivate_nothing {db' : DirectoryDb} (hstatus : db.statusOf userId ≠ some .suspended)
    (h : directoryDatabase.land db (Sql.eval db.val (.reactivateUser userId)).2 = some db') : db' = db := by
  have hrows : (Sql.eval db.val (.reactivateUser userId)).2 = [] := by
    refine if_neg fun hany => hstatus ?_
    rw [DirectoryDb.statusOf]
    cases hu : db.val.accounts.users.lookup userId with
    | none => simp [hu] at hany
    | some u => simpa [hu] using hany
  rw [hrows] at h
  exact land_nil h

/-- The flag still agrees with the status of the account, where that is a member's. -/
def Agreeing (orgId : Nat) (start : DirectoryDb) (userId : Nat) (active : Bool) (db : DirectoryDb) : Prop :=
  Held orgId start db ∧ (start.isMember orgId userId → db.statusOf userId ≠ some (if active then .suspended else .active))

theorem Agreeing.unchanged {db' : DirectoryDb} (hdb : Agreeing orgId start userId active db)
    (hheld : Held orgId start db') (hstatus : db'.statusOf userId = db.statusOf userId) : Agreeing orgId start userId active db' :=
  ⟨hheld,by rw [hstatus]; exact hdb.2⟩

/-- Statements on the rows of SCIM and a new name leave the status as it is. -/
theorem keeps_scimRow (id : Nat) (externalId : Option JsString) (userName : JsString) (flag : Bool) :
    (query (.updateScimUser id externalId userName flag)).Keeps (Agreeing orgId start userId active) fun _ => True := by
  refine Keeps.query fun db db' hdb hland => ⟨hdb.unchanged (hdb.1.statement (q := .updateScimUser ..) trivial hland) ?_,trivial⟩
  have hval := RowWrite.apply_val (land_one hland)
  rw [DirectoryDb.statusOf,DirectoryDb.statusOf,← Option.some.inj hval]

theorem keeps_renameUser (userId : Nat) (active : Bool) (name : JsString) :
    (query (.renameUser userId name)).Keeps (Agreeing orgId start userId active) fun _ => True := by
  refine Keeps.query fun db db' hdb hland => ⟨hdb.unchanged (hdb.1.statement (q := .renameUser userId name) trivial hland) ?_,trivial⟩
  have hv := (RowWrite.account_apply (land_one hland)).1
  rw [DirectoryDb.statusOf,DirectoryDb.statusOf,AccountWrite.users_apply hv,AccountWrite.userAfter,Option.map_map]
  congr 1
  funext u
  rw [Function.comp_apply]
  split
  · rfl
  · rfl

/-- A flag that agrees changes nothing for a member. -/
theorem keeps_applyActive (userId : Nat) (active : Bool) :
    (ScimService.applyActive userId active).Keeps (Agreeing orgId start userId active) fun _ => True := by
  cases active with
  | true =>
    change (query (.reactivateUser userId)).Keeps _ _
    refine Keeps.query fun db db' hdb hland => ⟨?_,trivial⟩
    by_cases hmember : start.isMember orgId userId
    · rw [reactivate_nothing (hdb.2 hmember) hland]
      exact hdb
    · have hspares : Sql.Spares orgId start (.reactivateUser userId) := fun h => absurd h hmember
      exact ⟨hdb.1.statement hspares hland,fun h => absurd h hmember⟩
  | false =>
    change (query (.suspendUser userId)).Keeps _ _
    refine Keeps.query fun db db' hdb hland => ⟨?_,trivial⟩
    have hnot : Sql.Spares orgId start (.suspendUser userId) :=
      fun hmember hcan => hdb.2 hmember ((hdb.1.active userId hmember).mpr hcan)
    have hheld := hdb.1.statement hnot hland
    exact ⟨hheld,fun hmember hactive => hnot hmember ((hheld.active userId hmember).mp hactive)⟩

theorem keeps_resolveLocalUser (email displayName : JsString) (newId : Nat) :
    (ScimService.resolveLocalUser email displayName newId).Keeps (Held orgId start) fun userId =>
      start.isMember orgId userId → ∃ u, start.val.accounts.userByEmail email = some u ∧ u.id = userId := by
  refine .bind (R := fun found : Option UserRow => ∀ u ∈ found, start.isMember orgId u.id →
    ∃ u', start.val.accounts.userByEmail email = some u' ∧ u'.id = u.id) (Keeps.query fun db db' hdb hland => ?_) fun found hfound => ?_
  · exact ⟨hdb.statement (q := .userByEmail email) trivial hland,fun u hu hmember => hdb.userByEmail hu hmember⟩
  · cases found with
    | some u => exact hfound u rfl
    | none =>
      refine .bind (R := fun _ => ¬start.isMember orgId newId) (Keeps.query fun db db' hdb hland => ?_) fun _ hnew hmember =>
        absurd hmember hnew
      refine ⟨hdb.statement (q := .insertUser _) trivial hland,hdb.not_fresh ?_⟩
      exact AccountWrite.insertUser_fresh (RowWrite.account_apply (land_one hland)).1

variable {d : Deployment}

theorem keeps_createUser (hother : ctx.orgId ≠ orgId) {body : ScimUser} {newUserId newId : Nat}
    (h : ScimOp.Spares cm orgId start ctx (.createUser body newUserId newId)) :
    (ScimService.createUser cm ctx body newUserId newId).Keeps (Held orgId start) fun _ => True := by
  have htx : (transaction do
      let userId ← ScimService.resolveLocalUser ((primaryEmail cm body).getD (trim (body.userName.getD []))) (displayNameOf body) newUserId
      query (.insertMember ⟨ctx.orgId,userId,ctx.defaultRole⟩)
      let row := ⟨newId,ctx.orgId,userId,body.externalId,trim (body.userName.getD []),body.active.getD true⟩
      query (.insertScimUser row)
      if !body.active.getD true then query (.suspendUser userId)
      Pure.pure row : Request ScimUserRow).Keeps (Held orgId start) fun _ => True := by
    refine .tx (.bind (keeps_resolveLocalUser _ _ _) fun userId huser => ?_)
    refine .bind (keeps_spared hother) fun _ _ => .bind (keeps_spared trivial) fun _ _ => .ite (fun hinactive => ?_) fun _ => trivial
    refine .bind (keeps_spared fun hmember => ?_) fun _ _ => trivial
    obtain ⟨u,hu,rfl⟩ := huser hmember
    have hflag : body.active = some false := by
      cases hactive : body.active with
      | none => simp [hactive] at hinactive
      | some active => simpa [hactive] using hinactive
    exact h hflag u hu hmember
  rw [ScimService.createUser]
  refine .ite (fun _ => trivial) fun _ => .bind (keeps_spared trivial) fun existing _ => ?_
  cases existing with
  | some _ => trivial
  | none => exact htx

/-- What a request does that begins with `loadUser` and goes on with `g`. -/
theorem held_loadUser {α : Type} {id : JsString} {g : ScimUserRow → Request α}
    (h : ∀ row ∈ scimAccount start ctx id, Held orgId start ((g row).after .database start)) :
    Held orgId start ((ScimService.loadUser ctx id >>= g).after .database start) := by
  rw [after_loadUser]
  cases hrow : scimAccount start ctx id with
  | none => exact Held.refl orgId start
  | some row => exact h row hrow

theorem held_of_agreeing {α : Type} {r : Request α} (hflag : FlagAgrees orgId start userId active)
    (hr : r.Keeps (Agreeing orgId start userId active) fun _ => True) : Held orgId start (r.after .database start) :=
  (hr.after ⟨Held.refl orgId start,hflag⟩).1

theorem held_scim (hother : ctx.orgId ≠ orgId) (op : ScimOp) (h : op.Spares d.cm orgId start ctx) :
    Held orgId start (((op.call ctx).body d 0).after .database start) := by
  cases op with
  | createUser body newUserId newId =>
    have hkeeps : (ScimService.createUser d.cm ctx body newUserId newId).ignore.Keeps (Held orgId start) fun _ => True :=
      .bind (keeps_createUser hother h) fun _ _ => trivial
    exact hkeeps.after (Held.refl orgId start)
  | replaceUser id body =>
    refine held_loadUser fun row hrow => held_of_agreeing (h row hrow) (.tx (.bind (keeps_scimRow _ _ _ _) fun _ _ => ?_))
    exact .bind (keeps_applyActive _ _) fun _ _ => .ite (fun _ => keeps_renameUser _ _ _) fun _ => trivial
  | patchUser id operations =>
    refine held_loadUser fun row hrow => held_of_agreeing (h row hrow) (.tx (.bind (keeps_scimRow _ _ _ _) fun _ _ => ?_))
    exact keeps_applyActive _ _
  | deleteUser id =>
    refine held_loadUser fun row hrow => ?_
    have hkeeps : (transaction do
        query (.deleteScimUser row.id)
        if ctx.deactivate then query (.suspendUser row.userId) : Request Unit).Keeps (Held orgId start) fun _ => True :=
      .tx (.bind (keeps_spared trivial) fun _ _ => .ite (fun hdeactivate => keeps_spared (h hdeactivate row hrow)) fun _ => trivial)
    exact hkeeps.after (Held.refl orgId start)
  | createGroup body newId => exact held_groups hother (within_ignore (ScimService.within_createGroup body newId))
  | replaceGroup id body => exact held_groups hother (within_ignore (ScimService.within_replaceGroup id body))
  | patchGroup id operations => exact held_groups hother (within_ignore (ScimService.within_patchGroup id operations))
  | deleteGroup id => exact held_groups hother (ScimService.within_deleteGroup id)

end Scim

section Ldap
variable {d : Deployment} {orgId : Nat} {start db db' : DirectoryDb} {row : DirectoryRow} {snapshot : Snapshot}
variable {seen : List JsString}

def DirectoryDb.linkOf (db : DirectoryDb) (k : Nat × JsString) : Option Nat := (db.val.ldapIdentities.lookup k).map (·.userId)

theorem linkOf_upsertLdapIdentity {directoryId userId : Nat} {dn : JsString}
    (h : (RowWrite.upsertLdapIdentity ⟨directoryId,dn,userId⟩).apply db = some db') : db'.val.accounts = db.val.accounts ∧
    ∀ dn', db'.linkOf (directoryId,dn') = if dn' = dn then some userId else db.linkOf (directoryId,dn') := by
  have hval := (Option.some.inj (RowWrite.apply_val h)).symm
  refine ⟨by rw [hval],fun dn' => ?_⟩
  have hkey : (directoryId,dn') = LdapIdentityRow.key ⟨directoryId,dn,userId⟩ ↔ dn' = dn := by simp [LdapIdentityRow.key]
  rw [DirectoryDb.linkOf,hval,Table.lookup_upsert]
  by_cases hsame : dn' = dn
  · rw [if_pos hsame,if_pos (hkey.mpr hsame),Option.map_some]
  · rw [if_neg hsame,if_neg (hkey.not.mpr hsame)]
    rfl

/-- In the course of a sync: links are added for entries only, and where they lead to members
of the other organisation these are active, or not, as their DN is seen or not. -/
structure HeldLinks (orgId : Nat) (start : DirectoryDb) (row : DirectoryRow) (seen : List JsString) (db : DirectoryDb) : Prop where
  held : Held orgId start db
  grown : ∀ dn, db.linkOf (row.id,dn) = none → start.linkOf (row.id,dn) = none
  named : ∀ dn ∈ seen, ∀ userId ∈ db.linkOf (row.id,dn), start.isMember orgId userId → start.canAuthenticate userId
  stale : row.deactivateMissing = true → ∀ dn, dn ∉ seen → ∀ userId ∈ db.linkOf (row.id,dn),
    start.isMember orgId userId → ¬start.canAuthenticate userId

theorem HeldLinks.statement (hdb : HeldLinks orgId start row seen db) {q : Sql} (hq : q.Spares orgId start)
    (haccounts : ∀ w ∈ (q.eval db.val).2, ∃ v, w = .account v)
    (h : directoryDatabase.land db (q.eval db.val).2 = some db') : HeldLinks orgId start row seen db' := by
  have hlinks : db'.val.ldapIdentities = db.val.ldapIdentities := by
    refine @Database.land_invariant directoryDatabase (fun db' => db'.val.ldapIdentities = db.val.ldapIdentities) _ _ _ ?_ h rfl
    intro w hw db₁ db₂ h₁ hrow
    obtain ⟨v,rfl⟩ := haccounts w hw
    rw [(RowWrite.account_apply hrow).2]
    exact h₁
  obtain ⟨hheld,hgrown,hseen,hstale⟩ := hdb
  have hlink : ∀ k, db'.linkOf k = db.linkOf k := fun k => by rw [DirectoryDb.linkOf,hlinks]; rfl
  refine ⟨hheld.statement hq h,?_,?_,?_⟩
  · simpa only [hlink] using hgrown
  · simpa only [hlink] using hseen
  · simpa only [hlink] using hstale

theorem keeps_ldap {q : Sql} (hq : q.Spares orgId start) (haccounts : ∀ t, ∀ w ∈ (q.eval t).2, ∃ v, w = .account v) :
    (query q).Keeps (HeldLinks orgId start row seen) fun _ => True :=
  Keeps.query fun _ _ hdb hland => ⟨hdb.statement hq (haccounts _) hland,trivial⟩

/-- A link for a DN that is seen. -/
theorem keeps_upsertLdapIdentity {dn : JsString} {userId : Nat} (hdn : dn ∈ seen)
    (huser : start.isMember orgId userId → start.canAuthenticate userId) :
    (query (.upsertLdapIdentity ⟨row.id,dn,userId⟩)).Keeps (HeldLinks orgId start row seen) fun _ => True := by
  refine Keeps.query fun db db' hdb hland => ⟨?_,trivial⟩
  obtain ⟨haccounts,hlink⟩ := linkOf_upsertLdapIdentity (land_one hland)
  refine ⟨hdb.held.accounts haccounts,fun dn' hnone => ?_,fun dn' hdn' u hu => ?_,fun hdeactivate dn' hdn' u hu => ?_⟩
  · rw [hlink] at hnone
    split at hnone
    · simp at hnone
    · exact hdb.grown dn' hnone
  · rw [hlink] at hu
    split at hu
    · cases hu
      exact huser
    · exact hdb.named dn' hdn' u hu
  · rw [hlink,if_neg (by rintro rfl; exact hdn' hdn)] at hu
    exact hdb.stale hdeactivate dn' hdn' u hu

/-- The account of an entry is no member's, or one of an active member. -/
theorem keeps_applyUser {user : MappedUser} {email : JsString} (huser : user ∈ snapshot.users) (hemail : given user.email = some email)
    (hother : row.orgId ≠ orgId) (h : snapshot.Spares orgId start row) :
    (LdapService.applyUser d.cm row snapshot.expand user email (snapshot.newId user.externalId)).Keeps
      (HeldLinks orgId start row (seenDns snapshot.users)) fun _ => True := by
  have hseen : user.externalId ∈ seenDns snapshot.users :=
    List.mem_map.mpr ⟨user,List.mem_filter.mpr ⟨huser,by simp [hemail]⟩,rfl⟩
  refine .tx (.bind (R := fun found : Nat × Bool => start.isMember orgId found.1 → start.canAuthenticate found.1)
    ?_ fun found hfound => ?_)
  · refine .bind (R := fun linked : Option Nat => (∀ userId ∈ linked, start.isMember orgId userId → start.canAuthenticate userId) ∧
      (linked = none → start.linkOf (row.id,user.externalId) = none)) (Keeps.query fun db db' hdb hland => ?_) fun linked hlinked => ?_
    · exact ⟨hdb.statement (q := .ldapLink row.id user.externalId) trivial (by simp [Sql.eval]) hland,
        hdb.named _ hseen,hdb.grown _⟩
    · cases linked with
      | some userId => exact hlinked.1 userId rfl
      | none =>
        refine .bind (R := fun existing : Option UserRow => ∀ u ∈ existing, start.isMember orgId u.id → start.canAuthenticate u.id)
          (Keeps.query fun db db' hdb hland => ?_) fun existing hexisting => ?_
        · refine ⟨hdb.statement (q := .userByEmail email) trivial (by simp [Sql.eval]) hland,fun u hu hmember => ?_⟩
          obtain ⟨u',hu',hid⟩ := hdb.held.userByEmail hu hmember
          refine h.1 user huser email hemail u.id ?_ hmember
          rw [entryAccount,show (start.val.ldapIdentities.lookup (row.id,user.externalId)).map (·.userId) = none from hlinked.2 rfl,hu']
          exact congrArg some hid
        · cases existing with
          | some u => exact hexisting u rfl
          | none =>
            refine .bind (R := fun _ => ¬start.isMember orgId (snapshot.newId user.externalId)) (Keeps.query fun db db' hdb hland => ?_)
              fun _ hnew hmember => absurd hmember hnew
            refine ⟨hdb.statement (q := .insertUser _) trivial (by simp [Sql.eval]) hland,hdb.held.not_fresh ?_⟩
            exact AccountWrite.insertUser_fresh (RowWrite.account_apply (land_one hland)).1
  · refine .bind (keeps_ldap hfound (by simp [Sql.eval])) fun _ _ => .bind (keeps_ldap hother (by simp [Sql.eval])) fun _ _ => ?_
    exact .bind (keeps_upsertLdapIdentity hseen hfound) fun _ _ => trivial

theorem keeps_applyUsers {users : List MappedUser} (husers : ∀ user ∈ users, user ∈ snapshot.users)
    (hother : row.orgId ≠ orgId) (h : snapshot.Spares orgId start row) (counts : SyncCounts) :
    (LdapService.applyUsers d.cm row snapshot.expand snapshot.newId counts users).Keeps
      (HeldLinks orgId start row (seenDns snapshot.users)) fun _ => True := by
  induction users generalizing counts with
  | nil => trivial
  | cons user rest ih =>
    have hrest := ih fun u hu => husers u (List.mem_cons_of_mem user hu)
    rw [LdapService.applyUsers]
    cases hemail : given user.email with
    | none => exact hrest counts
    | some email => exact .bind (keeps_applyUser (husers user List.mem_cons_self) hemail hother h) fun _ _ => hrest _

theorem keeps_deactivate {stale : List LdapIdentityRow}
    (hstale : ∀ i ∈ stale, i.externalId ∉ seen → start.isMember orgId i.userId → ¬start.canAuthenticate i.userId) (counts : SyncCounts) :
    (LdapService.deactivate seen counts stale).Keeps (HeldLinks orgId start row seen) fun _ => True := by
  induction stale generalizing counts with
  | nil => trivial
  | cons identity rest ih =>
    have hrest := ih fun i hi => hstale i (List.mem_cons_of_mem identity hi)
    refine .ite (fun _ => hrest counts) fun hnot =>
      .bind (keeps_ldap (hstale identity List.mem_cons_self (by simpa using hnot)) ?_) fun _ _ => hrest _
    intro t w hw
    rw [Sql.eval] at hw
    split at hw
    · exact ⟨_,List.mem_singleton.mp hw⟩
    · simp at hw

theorem heldLinks_start (h : snapshot.Spares orgId start row) : HeldLinks orgId start row (seenDns snapshot.users) start := by
  refine ⟨Held.refl orgId start,fun _ hnone => hnone,fun dn hdn userId hlink hmember => ?_,
    fun hdeactivate dn hdn userId hlink hmember => ?_⟩
  · obtain ⟨user,huser,rfl⟩ := List.mem_map.mp hdn
    obtain ⟨hmem,hsome⟩ := List.mem_filter.mp huser
    obtain ⟨email,hemail⟩ := Option.isSome_iff_exists.mp hsome
    refine h.1 user hmem email hemail userId ?_ hmember
    rw [entryAccount,show (start.val.ldapIdentities.lookup (row.id,user.externalId)).map (·.userId) = some userId from hlink]
    rfl
  · obtain ⟨link,hlookup,rfl⟩ := Option.map_eq_some_iff.mp hlink
    obtain ⟨hmem,hkey⟩ := Table.lookup_eq_some.mp hlookup
    obtain ⟨hdirectory,rfl⟩ := Prod.mk.inj hkey
    exact h.2 hdeactivate link hmem hdirectory hdn hmember

theorem held_sync (hother : row.orgId ≠ orgId) (h : snapshot.Spares orgId start row) :
    Held orgId start (((row.sync snapshot).body d 0).after .database start) := by
  have hstart := heldLinks_start h
  have hkeeps : (LdapService.applySnapshot d.cm row snapshot.expand snapshot.users snapshot.newId).ignore.Keeps
      (HeldLinks orgId start row (seenDns snapshot.users)) fun _ => True := by
    refine .bind (R := fun _ => True) (.bind (keeps_applyUsers (fun _ hu => hu) hother h _) fun counts _ =>
      .ite (fun hdeactivate => ?_) fun _ => trivial) fun _ _ => trivial
    refine .bind (R := fun stale : List LdapIdentityRow => ∀ i ∈ stale, i.externalId ∉ seenDns snapshot.users →
      start.isMember orgId i.userId → ¬start.canAuthenticate i.userId) (Keeps.query fun db db' hdb hland => ?_) fun stale hstale =>
        keeps_deactivate hstale _
    refine ⟨hdb.statement (q := .ldapLinks row.id) trivial (by simp [Sql.eval]) hland,fun i hi hnot => ?_⟩
    obtain ⟨hmem,hdirectory⟩ := List.mem_filter.mp hi
    refine hdb.stale hdeactivate i.externalId hnot i.userId ?_
    rw [DirectoryDb.linkOf,← eq_of_beq hdirectory,show (i.directoryId,i.externalId) = i.key from rfl,Table.lookup_of_mem hmem]
    rfl
  exact (hkeeps.after hstart).held

end Ldap

section Runs
variable {d : Deployment} {orgA orgB : Nat} {db db' db'' : DirectoryDb}

theorem Held.sameFor {orgId : Nat} (h : Held orgId db db') : SameFor orgId db db' := fun userId => ⟨h.roles userId,h.active userId⟩

theorem SameFor.trans {orgId : Nat} (h : SameFor orgId db db') (h' : SameFor orgId db' db'') : SameFor orgId db db'' := by
  intro userId
  obtain ⟨hroles,hactive⟩ := h userId
  obtain ⟨hroles',hactive'⟩ := h' userId
  refine ⟨hroles'.trans hroles,fun hmember => (hactive' ?_).trans (hactive hmember)⟩
  rw [DirectoryDb.isMember,hroles]
  exact hmember

/-- The calls of an organisation whose directory writes no status that differs from the one
the members of another organisation have leave that organisation as it is. -/
theorem provisioning_tenant_local (hne : orgA ≠ orgB)
    (hrun : Run (provisionStep d) (fun db call => call.orgId = orgA ∧ SparesMembers d.cm orgB db call) db db') : SameFor orgB db db' := by
  have hstep : ∀ s call t, SameFor orgB db s → call.orgId = orgA ∧ SparesMembers d.cm orgB s call → provisionStep d s call = some t →
      SameFor orgB db t := by
    rintro s call t hs ⟨rfl,hspares⟩ hstep
    cases hstep
    refine hs.trans ?_
    cases call with
    | scim ctx op => exact (held_scim hne op hspares).sameFor
    | ldap row snapshot => exact (held_sync hne hspares).sameFor
  exact hrun.invariant hstep (Held.refl orgB db).sameFor

/-- Two organisations: user 1 is the admin of the first, user 2 the owner of the second. -/
def twoTenantsDb : DirectoryDb where
  val := ⟨twoOrgsDb,.empty,.empty,.empty,.empty⟩
  property := by simp [DirectoryTables.Consistent,Table.empty]

/-- The SCIM client of the first organisation creates a user with `active: false`. -/
def createInactive (userName : String) : ProvisioningCall :=
  .scim ⟨1,.member,[],true⟩ (.createUser ⟨some (js userName),none,none,none,[],some false⟩ 9 5)

/-- The directory of the first organisation has an entry for the owner of the second. -/
def syncBoss : ProvisioningCall :=
  .ldap ⟨1,1,[],.member,true⟩ ⟨[⟨js "cn=boss",some (js "boss@c.d"),none,[]⟩],id,fun _ => 8⟩

theorem guest_stays_active : ∃ t, Run (provisionStep plainDeployment) (fun db call => call.orgId = 1 ∧ SparesMembers asciiCase 2 db call)
    twoTenantsDb t ∧ t.members.lookup (1,2) = some ⟨1,2,.member⟩ ∧ SameFor 2 twoTenantsDb t := by
  have hactions : (runActions (provisionStep plainDeployment) (fun db call => call.orgId = 1 ∧ SparesMembers asciiCase 2 db call)
      twoTenantsDb [createInactive "new@a.b",syncBoss]).map (·.members.lookup (1,2)) = some (some ⟨1,2,.member⟩) := by decide
  obtain ⟨t,ht,hguest⟩ := Option.map_eq_some_iff.mp hactions
  have hrun := Run.of_actions ht
  exact ⟨t,hrun,hguest,provisioning_tenant_local (by decide) hrun⟩

/-- A client of the first organisation names the owner of the second, and the owner can no
longer authenticate. -/
theorem foreign_owner_suspended : ∃ t, Run (provisionStep plainDeployment) (fun _ call => call.orgId = 1) twoTenantsDb t ∧
    twoTenantsDb.isMember 2 2 ∧ twoTenantsDb.canAuthenticate 2 ∧ ¬t.canAuthenticate 2 ∧ ¬SameFor 2 twoTenantsDb t := by
  have hactions : (runActions (provisionStep plainDeployment) (fun _ call => call.orgId = 1) twoTenantsDb [createInactive "boss@c.d"]).map
      (fun t => decide (t.canAuthenticate 2)) = some false := by decide
  obtain ⟨t,ht,hlost⟩ := Option.map_eq_some_iff.mp hactions
  have hnot : ¬t.canAuthenticate 2 := of_decide_eq_false hlost
  have hmember : twoTenantsDb.isMember 2 2 := by decide
  have hcan : twoTenantsDb.canAuthenticate 2 := by decide
  exact ⟨t,.of_actions ht,hmember,hcan,hnot,fun hsame => hnot (((hsame 2).2 hmember).mpr hcan)⟩

end Runs
end JustMail.Accounts
