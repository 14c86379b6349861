import JustMail.Accounts.TenantIsolation

/-! The role of a SCIM user is that of the groups it belongs to. Operations on groups return
the accounts they have touched, and roles are computed again for these. -/
namespace JustMail.Accounts
open Foundation Postfix Program

section Model
variable (d : Deployment) (ctx : ScimContext)

/-- The requests of a SCIM client come one after the other. None of them reads the time. -/
def scimStep (db : DirectoryDb) (op : ScimOp) : Option DirectoryDb := some (((op.call ctx).body d 0).after .database db)

/-- The role that the groups of a user give it. -/
def groupRole (cm : CaseMapping) (t : DirectoryTables) (userId : Nat) : OrgRole :=
  resolveRole cm (groupNamesOf t ctx.orgId userId) ctx.groupRoleMap ctx.defaultRole

/-- Every user with a `scim_users` row has the role of its groups. -/
def RolesFollowGroups (cm : CaseMapping) (db : DirectoryDb) : Prop :=
  ∀ r ∈ db.val.scimUsers.rows, r.orgId = ctx.orgId →
    db.val.accounts.roleOf (ctx.orgId,r.userId) = some (groupRole ctx cm db.val r.userId)

/-- An account that `createUser` finds by its e-mail is no member of the organisation, or one
with the default role; or it has a `scim_users` row already and is refused. -/
def StartsAtDefault (cm : CaseMapping) (db : DirectoryDb) : ScimOp → Prop
  | .createUser body _ _ => ∀ u ∈ db.val.accounts.userByEmail ((primaryEmail cm body).getD (trim (body.userName.getD []))),
      (∃ r ∈ db.val.scimUsers.rows, r.orgId = ctx.orgId ∧ r.userId = u.id) ∨
      ∀ role ∈ db.val.accounts.roleOf (ctx.orgId,u.id), role = ctx.defaultRole
  | _ => True

end Model

section Names
variable {t t' : DirectoryTables} {orgId userId : Nat}

/-- What a membership adds to the groups of an account. -/
def nameFrom (t : DirectoryTables) (orgId userId : Nat) (m : GroupMemberRow) : Option JsString :=
  ((t.scimUsers.lookup m.scimUserId).filter fun u => u.userId == userId && u.orgId == orgId).bind fun _ =>
    (t.scimGroups.lookup m.groupId).map (·.displayName)

theorem groupNamesOf_eq (t : DirectoryTables) (orgId userId : Nat) :
    groupNamesOf t orgId userId = t.groupMembers.rows.filterMap (nameFrom t orgId userId) := rfl

theorem groupRole_congr {ctx : ScimContext} {cm : CaseMapping} (h : groupNamesOf t ctx.orgId userId = groupNamesOf t' ctx.orgId userId) :
    groupRole ctx cm t userId = groupRole ctx cm t' userId := by
  rw [groupRole,groupRole,h]

theorem nameFrom_none {m : GroupMemberRow} (h : ∀ r, t.scimUsers.lookup m.scimUserId = some r → r.orgId = orgId → r.userId ≠ userId) :
    nameFrom t orgId userId m = none := by
  rw [nameFrom]
  cases hr : t.scimUsers.lookup m.scimUserId with
  | none => rfl
  | some r =>
    rw [Option.filter_some,if_neg]
    · rfl
    · intro hmatch
      obtain ⟨huser,horg⟩ : r.userId = userId ∧ r.orgId = orgId := by simpa using hmatch
      exact h r hr horg huser

/-- Memberships that add nothing can be left out. -/
theorem filterMap_filter_of_none {α β : Type} {f : α → Option β} {p : α → Bool} {l : List α} (h : ∀ a ∈ l, p a = false → f a = none) :
    (l.filter p).filterMap f = l.filterMap f := by
  induction l with
  | nil => rfl
  | cons a l ih =>
    have hl := ih fun b hb => h b (List.mem_cons_of_mem a hb)
    cases hp : p a with
    | true => rw [List.filter_cons_of_pos hp,List.filterMap_cons,List.filterMap_cons,hl]
    | false => rw [List.filter_cons_of_neg (by simp [hp]),List.filterMap_cons,h a List.mem_cons_self hp,hl]

theorem mem_memberUserIds {groupId : Nat} {m : GroupMemberRow} {r : ScimUserRow} (hm : m ∈ t.groupMembers.rows)
    (hgroup : m.groupId = groupId)
    (hr : t.scimUsers.lookup m.scimUserId = some r) : r.userId ∈ memberUserIds t groupId :=
  List.mem_filterMap.mpr ⟨m,List.mem_filter.mpr ⟨hm,by simp [hgroup]⟩,by rw [hr]; rfl⟩

end Names

section Touched
variable {orgId groupId : Nat} {T T' : List Nat} {db db' db'' : DirectoryDb} {m : GroupMemberRow}

/-- From `db` to `db'` accounts and SCIM users stay as they are, and so do the groups of every
account outside `T`. -/
structure Touches (orgId : Nat) (T : List Nat) (db db' : DirectoryDb) : Prop where
  accounts : db'.val.accounts = db.val.accounts
  scimUsers : db'.val.scimUsers = db.val.scimUsers
  names : ∀ userId, userId ∉ T → groupNamesOf db'.val orgId userId = groupNamesOf db.val orgId userId

theorem Touches.refl (db : DirectoryDb) : Touches orgId [] db db := ⟨rfl,rfl,fun _ _ => rfl⟩

theorem Touches.trans (h : Touches orgId T db db') (h' : Touches orgId T' db' db'') : Touches orgId (T ++ T') db db'' := by
  refine ⟨h'.accounts.trans h.accounts,h'.scimUsers.trans h.scimUsers,fun userId hnot => ?_⟩
  rw [List.mem_append,not_or] at hnot
  rw [h'.names userId hnot.2,h.names userId hnot.1]

theorem Touches.mono (h : Touches orgId T db db') (hT : ∀ u ∈ T, u ∈ T') : Touches orgId T' db db' :=
  ⟨h.accounts,h.scimUsers,fun userId hnot => h.names userId fun hmem => hnot (hT userId hmem)⟩

theorem touches_filter {p : GroupMemberRow → Bool} {members : Table (id : GroupMemberRow → GroupMemberRow)}
    (hmembers : members.rows = db.val.groupMembers.rows.filter p) (hval : db'.val = { db.val with groupMembers := members })
    (hT : ∀ m ∈ db.val.groupMembers.rows, p m = false → ∀ r, db.val.scimUsers.lookup m.scimUserId = some r →
      r.orgId = orgId → r.userId ∈ T) :
    Touches orgId T db db' := by
  refine ⟨by rw [hval],by rw [hval],fun userId hnot => ?_⟩
  have hname : nameFrom db'.val orgId userId = nameFrom db.val orgId userId := by rw [hval]; rfl
  rw [groupNamesOf_eq,groupNamesOf_eq,hname,hval,hmembers]
  refine filterMap_filter_of_none fun m hm hp => nameFrom_none fun r hr horg huser => ?_
  exact hnot (huser ▸ hT m hm hp r hr horg)

theorem touches_deleteGroupMember (h : (RowWrite.deleteGroupMember m).apply db = some db')
    (hT : ∀ r, db.val.scimUsers.lookup m.scimUserId = some r → r.orgId = orgId → r.userId ∈ T) : Touches orgId T db db' := by
  refine touches_filter (p := fun m' => !(m' == m)) rfl (Option.some.inj (RowWrite.apply_val h)).symm fun m' hm' hp r hr => ?_
  obtain rfl : m' = m := by simpa using hp
  exact hT r hr

theorem touches_clearGroup (h : directoryDatabase.land db (Sql.eval db.val (.clearGroup groupId)).2 = some db') :
    Touches orgId (memberUserIds db.val groupId) db db' := by
  refine @Database.land_invariant directoryDatabase (Touches orgId (memberUserIds db.val groupId) db) _ _ _ ?_ h
    ((Touches.refl db).mono (by simp))
  intro w hw db₁ db₂ h₁ hrow
  obtain ⟨m,hm,rfl⟩ := List.mem_map.mp hw
  obtain ⟨hmem,hgroup⟩ := List.mem_filter.mp hm
  refine (h₁.trans (touches_deleteGroupMember hrow (T := memberUserIds db.val groupId) fun r hr _ => ?_)).mono (by simp)
  rw [h₁.scimUsers] at hr
  exact mem_memberUserIds hmem (eq_of_beq hgroup) hr

theorem touches_insertGroupMember {r : ScimUserRow} (h : (RowWrite.insertGroupMember m).apply db = some db')
    (hr : db.val.scimUsers.lookup m.scimUserId = some r) : Touches orgId [r.userId] db db' := by
  have hval : db'.val = { db.val with groupMembers := db.val.groupMembers.upsert m } := (Option.some.inj (RowWrite.apply_val h)).symm
  refine ⟨by rw [hval],by rw [hval],fun userId hnot => ?_⟩
  have hname : nameFrom db'.val orgId userId = nameFrom db.val orgId userId := by rw [hval]; rfl
  rw [groupNamesOf_eq,groupNamesOf_eq,hname,hval]
  cases hold : db.val.groupMembers.lookup (id m) with
  | none =>
    -- a membership of another account at the end
    have hnone : nameFrom db.val orgId userId m = none := by
      refine nameFrom_none fun r' hr' _ huser => hnot ?_
      obtain rfl := Option.some.inj (hr.symm.trans hr')
      simp [huser]
    rw [Table.upsert,dif_pos hold,Table.insert,List.filterMap_append,List.filterMap_cons,hnone,List.filterMap_nil,List.append_nil]
  | some m' =>
    obtain rfl : m' = m := Table.key_of_lookup hold
    exact congrArg _ (Table.rows_upsert_of_lookup hold)

/-- Where the names of one group alone change, its members are touched. -/
theorem names_of_group {groupId userId : Nat} (hT : userId ∉ memberUserIds db.val groupId) {t' : DirectoryTables}
    (husers : t'.scimUsers = db.val.scimUsers) (hgroups : ∀ id, id ≠ groupId → t'.scimGroups.lookup id = db.val.scimGroups.lookup id)
    (hm : m ∈ db.val.groupMembers.rows) : nameFrom t' orgId userId m = nameFrom db.val orgId userId m := by
  by_cases hgroup : m.groupId = groupId
  · have hother : ∀ r, db.val.scimUsers.lookup m.scimUserId = some r → r.orgId = orgId → r.userId ≠ userId := by
      rintro r hr - rfl
      exact hT (mem_memberUserIds hm hgroup hr)
    rw [nameFrom_none hother,nameFrom_none (by rw [husers]; exact hother)]
  · rw [nameFrom,nameFrom,husers,hgroups _ hgroup]

theorem touches_updateScimGroup {displayName : JsString} {externalId : Option (Option JsString)}
    (h : (RowWrite.updateScimGroup groupId displayName externalId).apply db = some db') :
    Touches orgId (memberUserIds db.val groupId) db db' := by
  have hval := (Option.some.inj (RowWrite.apply_val h)).symm
  refine ⟨by rw [hval],by rw [hval],fun userId hnot => ?_⟩
  have hmembers : db'.val.groupMembers = db.val.groupMembers := by rw [hval]
  rw [groupNamesOf_eq,groupNamesOf_eq,hmembers]
  refine List.filterMap_congr fun m hm => names_of_group hnot (by rw [hval]) (fun id hid => ?_) hm
  rw [hval]
  dsimp only
  rw [Table.lookup_updateWhere]
  cases hgroup : db.val.scimGroups.lookup id with
  | none => rfl
  | some g =>
    have hother : ¬(g.id == groupId) = true := by simpa [Table.key_of_lookup hgroup] using hid
    rw [Option.map_some,if_neg hother]

theorem touches_deleteScimGroup (h : (RowWrite.deleteScimGroup groupId).apply db = some db') :
    Touches orgId (memberUserIds db.val groupId) db db' := by
  have hval := (Option.some.inj (RowWrite.apply_val h)).symm
  refine ⟨by rw [hval],by rw [hval],fun userId hnot => ?_⟩
  have hmembers : db'.val.groupMembers.rows = db.val.groupMembers.rows.filter fun m => !(m.groupId == groupId) := by rw [hval]; rfl
  rw [groupNamesOf_eq,groupNamesOf_eq,hmembers]
  have hnames : (db.val.groupMembers.rows.filter fun m => !(m.groupId == groupId)).filterMap (nameFrom db'.val orgId userId) =
      (db.val.groupMembers.rows.filter fun m => !(m.groupId == groupId)).filterMap (nameFrom db.val orgId userId) := by
    refine List.filterMap_congr fun m hm => names_of_group hnot (by rw [hval]) (fun id hid => ?_) (List.mem_filter.mp hm).1
    rw [hval]
    dsimp only
    rw [Table.lookup_deleteWhere]
    cases hgroup : db.val.scimGroups.lookup id with
    | none => rfl
    | some g =>
      have hother : (!(g.id == groupId)) = true := by simpa [Table.key_of_lookup hgroup] using hid
      rw [Option.filter_some,if_pos hother]
  rw [hnames]
  refine filterMap_filter_of_none fun m hm hp => nameFrom_none ?_
  rintro r hr - rfl
  exact hnot (mem_memberUserIds hm (by simpa using hp) hr)

/-- Nobody belongs to a group that is new. -/
theorem memberUserIds_insertScimGroup {r : ScimGroupRow} (h : (RowWrite.insertScimGroup r).apply db = some db') :
    memberUserIds db'.val r.id = [] := by
  obtain ⟨rows,hrows,hval⟩ := Option.map_eq_some_iff.mp (RowWrite.apply_val h)
  rw [insertRow] at hrows
  split at hrows
  · rename_i hfresh
    have hnone : db'.val.groupMembers.rows.filter (fun m => m.groupId == r.id) = [] := by
      rw [← hval]
      refine List.filter_eq_nil_iff.mpr fun m hm hgroup => ?_
      have hexists := (db.property.2.2.2.2.1 m hm).1
      simp [eq_of_beq hgroup,hfresh] at hexists
    rw [memberUserIds,hnone]
    rfl
  · simp at hrows

theorem touches_insertScimGroup {r : ScimGroupRow} (h : (RowWrite.insertScimGroup r).apply db = some db') : Touches orgId [] db db' := by
  obtain ⟨rows,hrows,hval⟩ := Option.map_eq_some_iff.mp (RowWrite.apply_val h)
  rw [insertRow] at hrows
  split at hrows
  · rename_i hfresh
    cases hrows
    refine ⟨by rw [← hval],by rw [← hval],fun userId _ => ?_⟩
    have hmembers : db'.val.groupMembers = db.val.groupMembers := by rw [← hval]
    rw [groupNamesOf_eq,groupNamesOf_eq,hmembers]
    refine List.filterMap_congr fun m hm => ?_
    -- the groups of memberships are there already
    have hexists := (db.property.2.2.2.2.1 m hm).1
    have hother : m.groupId ≠ r.id := by
      intro hsame
      simp [hsame,hfresh] at hexists
    rw [nameFrom,nameFrom,← hval]
    dsimp only
    rw [Table.lookup_insert,if_neg hother]
  · simp at hrows

end Touched

section Groups
variable {cm : CaseMapping} {ctx : ScimContext} {groupId : Nat} {db db' : DirectoryDb} {ids : List Nat} {sids : List JsString}

theorem addMembers_touches (h : (ScimService.addMembers ctx groupId sids).Returns db ids db') :
    Touches ctx.orgId ids db db' := by
  induction sids generalizing db ids with
  | nil =>
    obtain ⟨rfl,rfl⟩ := h
    exact Touches.refl db
  | cons sid rest ih =>
    rw [ScimService.addMembers] at h
    split at h
    · exact ih h
    · rename_i id hid
      obtain ⟨found,mid,hfound,h⟩ := returns_bind.mp h
      obtain ⟨rfl,hfound⟩ := returns_read rfl hfound
      cases found with
      | none => exact ih h
      | some row =>
        have hrow := (Option.filter_eq_some_iff.mp hfound).1
        obtain ⟨_,mid',hinsert,h⟩ := returns_bind.mp h
        obtain ⟨userIds,mid'',hrest,rfl,rfl⟩ := returns_bind.mp h
        exact (touches_insertGroupMember (returns_write rfl hinsert) hrow).trans (ih hrest)

theorem removeMembers_touches (h : (ScimService.removeMembers ctx groupId sids).Returns db ids db') :
    Touches ctx.orgId ids db db' := by
  induction sids generalizing db ids with
  | nil =>
    obtain ⟨rfl,rfl⟩ := h
    exact Touches.refl db
  | cons sid rest ih =>
    rw [ScimService.removeMembers] at h
    split at h
    · exact ih h
    · rename_i id hid
      obtain ⟨found,mid,hread,hnext⟩ := returns_bind.mp h
      obtain ⟨rfl,hfound⟩ := returns_read rfl hread
      obtain ⟨_,mid',hdelete,hnext⟩ := returns_bind.mp hnext
      obtain ⟨userIds,mid'',hrest,rfl,rfl⟩ := returns_bind.mp hnext
      refine (touches_deleteGroupMember (returns_write rfl hdelete) fun r hr horg => ?_).trans (ih hrest)
      have hfilter : found = some r := by
        rw [← hfound]
        exact Option.filter_eq_some_iff.mpr ⟨hr,by simpa using horg⟩
      simp [hfilter]

theorem setMembers_touches (h : (ScimService.setMembers ctx groupId sids).Returns db ids db') :
    Touches ctx.orgId (memberUserIds db.val groupId ++ ids) db db' := by
  obtain ⟨_,mid,hclear,h⟩ := returns_bind.mp h
  exact (touches_clearGroup (returns_query.mp hclear).1).trans (addMembers_touches h)

theorem patchGroupOp_touches {op : PatchOp} (h : (ScimService.patchGroupOp cm ctx groupId op).Returns db ids db') :
    Touches ctx.orgId ids db db' := by
  have hnothing : ∀ {ids : List Nat}, (Pure.pure [] : Request (List Nat)).Returns db ids db' → Touches ctx.orgId ids db db' := by
    rintro _ ⟨rfl,rfl⟩
    exact Touches.refl db
  rw [ScimService.patchGroupOp] at h
  dsimp only at h
  split at h
  · split at h
    · exact addMembers_touches h
    · split at h
      · exact removeMembers_touches h
      · split at h
        · obtain ⟨before,mid,hbefore,h⟩ := returns_bind.mp h
          obtain ⟨rfl,rfl⟩ := returns_read rfl hbefore
          obtain ⟨after,mid,hset,rfl,rfl⟩ := returns_bind.mp h
          exact setMembers_touches hset
        · exact hnothing h
  · split at h
    · split at h
      · exact hnothing h
      · obtain ⟨_,mid,hupdate,hread⟩ := returns_bind.mp h
        obtain ⟨rfl,rfl⟩ := returns_read rfl hread
        have hrow := returns_write rfl hupdate
        have hval := (Option.some.inj (RowWrite.apply_val hrow)).symm
        have hmembers : memberUserIds db'.val groupId = memberUserIds db.val groupId := by rw [hval]; rfl
        change Touches ctx.orgId (memberUserIds db'.val groupId) db db'
        rw [hmembers]
        exact touches_updateScimGroup hrow
    · exact hnothing h

theorem patchGroupOps_touches {operations : List PatchOp} (h : (ScimService.patchGroupOps cm ctx groupId operations).Returns db ids db') :
    Touches ctx.orgId ids db db' := by
  induction operations generalizing db ids with
  | nil =>
    obtain ⟨rfl,rfl⟩ := h
    exact Touches.refl db
  | cons op rest ih =>
    obtain ⟨touched,mid,hop,h⟩ := returns_bind.mp h
    obtain ⟨others,mid',hrest,rfl,rfl⟩ := returns_bind.mp h
    exact (patchGroupOp_touches hop).trans (ih hrest)

/-- Roles are those of the groups for everybody named, and stay as they are for others. -/
theorem recomputeUsers_returns {userIds : List Nat} {u : Unit} (h : (ScimService.recomputeUsers cm ctx userIds).Returns db u db') :
    db'.val.scimUsers = db.val.scimUsers ∧ (∀ userId, groupNamesOf db'.val ctx.orgId userId = groupNamesOf db.val ctx.orgId userId) ∧
    ∀ userId, db'.val.accounts.roleOf (ctx.orgId,userId) =
      if userId ∈ userIds then some (groupRole ctx cm db.val userId) else db.val.accounts.roleOf (ctx.orgId,userId) := by
  induction userIds generalizing db with
  | nil =>
    obtain ⟨-,rfl⟩ := h
    exact ⟨rfl,fun _ => rfl,fun _ => by simp⟩
  | cons first rest ih =>
    obtain ⟨names,mid,hnames,hnext⟩ := returns_bind.mp h
    obtain ⟨rfl,rfl⟩ := returns_read rfl hnames
    obtain ⟨_,mid',hupsert,hrest⟩ := returns_bind.mp hnext
    obtain ⟨happly,hval⟩ := RowWrite.account_apply (returns_write rfl hupsert)
    have hnames' : ∀ userId, groupNamesOf mid'.val ctx.orgId userId = groupNamesOf mid.val ctx.orgId userId := by
      rw [hval]; exact fun _ => rfl
    obtain ⟨husers,hsame,hroles⟩ := ih hrest
    refine ⟨husers.trans (by rw [hval]; rfl),fun userId => (hsame userId).trans (hnames' userId),fun userId => ?_⟩
    rw [hroles,groupRole_congr (hnames' userId),AccountWrite.roleOf_apply happly,AccountWrite.roleAfter]
    by_cases hrest : userId ∈ rest
    · rw [if_pos hrest,if_pos (List.mem_cons_of_mem first hrest)]
    · rw [if_neg hrest]
      by_cases hfirst : userId = first
      · rw [hfirst,if_pos List.mem_cons_self]
        exact if_pos rfl
      · have hnot : userId ∉ first :: rest := by simp [hfirst,hrest]
        rw [if_neg hnot]
        exact if_neg fun h => hfirst (Prod.mk.inj h).2

/-- Roles follow the groups again once they are computed for everybody who was touched. -/
theorem rolesFollow_recompute {T : List Nat} {mid : DirectoryDb} {u : Unit} (h : RolesFollowGroups ctx cm db)
    (htouches : Touches ctx.orgId T db mid) (hrecompute : (ScimService.recomputeRoles cm ctx T).Returns mid u db') :
    RolesFollowGroups ctx cm db' := by
  obtain ⟨husers,hnames,hroles⟩ := recomputeUsers_returns hrecompute
  intro r hr horg
  rw [hroles,groupRole_congr (hnames r.userId)]
  split
  · rfl
  · rename_i hnot
    rw [List.mem_eraseDups] at hnot
    rw [husers,htouches.scimUsers] at hr
    rw [htouches.accounts,groupRole_congr (htouches.names _ hnot)]
    exact h r hr horg

end Groups

section Users
variable {row : ScimUserRow}

/-- An account has one row in an organisation. -/
theorem scimUser_unique {db : DirectoryDb} {r r' : ScimUserRow} (hr : r ∈ db.val.scimUsers.rows) (hr' : r' ∈ db.val.scimUsers.rows)
    (horg : r.orgId = r'.orgId) (huser : r.userId = r'.userId) : r = r' :=
  List.inj_on_of_nodup_map db.property.1 hr hr' (by simp [horg,huser])

variable {cm : CaseMapping} {ctx : ScimContext} {db db' : DirectoryDb}

/-- Changes of accounts that leave the roles alone. -/
theorem RolesFollowGroups.accounts (h : RolesFollowGroups ctx cm db) {accounts : AccountDb} (hval : db'.val = db.val.withAccounts accounts)
    (hroles : ∀ userId, accounts.roleOf (ctx.orgId,userId) = db.val.accounts.roleOf (ctx.orgId,userId)) :
    RolesFollowGroups ctx cm db' := by
  intro r hr horg
  rw [hval] at hr ⊢
  exact (hroles r.userId).trans (h r hr horg)

theorem rolesFollow_updateUser (h : RolesFollowGroups ctx cm db) {userId : Nat} {name : Option JsString} {status : Option UserStatus}
    (hrow : (RowWrite.account (.updateUser userId name status)).apply db = some db') : RolesFollowGroups ctx cm db' := by
  obtain ⟨happly,hval⟩ := RowWrite.account_apply hrow
  exact h.accounts hval fun userId => AccountWrite.roleOf_apply happly _

theorem rolesFollow_updateScimUser (h : RolesFollowGroups ctx cm db) {id : Nat} {externalId : Option JsString}
    {userName : JsString} {active : Bool}
    (hrow : (RowWrite.updateScimUser id externalId userName active).apply db = some db') : RolesFollowGroups ctx cm db' := by
  have hval := (Option.some.inj (RowWrite.apply_val hrow)).symm
  have hnames : ∀ userId, groupNamesOf db'.val ctx.orgId userId = groupNamesOf db.val ctx.orgId userId := by
    intro userId
    have hmembers : db'.val.groupMembers = db.val.groupMembers := by rw [hval]
    rw [groupNamesOf_eq,groupNamesOf_eq,hmembers]
    congr 1
    funext m
    rw [nameFrom,nameFrom,hval]
    dsimp only
    rw [Table.lookup_updateWhere]
    cases db.val.scimUsers.lookup m.scimUserId with
    | none => rfl
    | some r =>
      rw [Option.map_some]
      by_cases hid : (r.id == id) = true
      · rw [if_pos hid,Option.filter_some,Option.filter_some]
        dsimp only
        split
        · rfl
        · rfl
      · rw [if_neg hid]
  intro r hr horg
  rw [groupRole_congr (hnames r.userId)]
  rw [hval] at hr ⊢
  obtain ⟨r',hr',rfl⟩ := List.mem_map.mp hr
  have hsame : (if r'.id == id then { r' with externalId := externalId, userName := userName, active := active }
    else r').userId = r'.userId ∧
      (if r'.id == id then { r' with externalId := externalId, userName := userName, active := active } else r').orgId = r'.orgId := by
    split
    · exact ⟨rfl,rfl⟩
    · exact ⟨rfl,rfl⟩
  rw [hsame.1]
  rw [hsame.2] at horg
  exact h r' hr' horg

theorem rolesFollow_deleteScimUser (h : RolesFollowGroups ctx cm db)
    (hrow : (RowWrite.deleteScimUser row.id).apply db = some db') : RolesFollowGroups ctx cm db' := by
  have hval := (Option.some.inj (RowWrite.apply_val hrow)).symm
  have husers : db'.val.scimUsers.rows = db.val.scimUsers.rows.filter fun r => !(r.id == row.id) := by rw [hval]; rfl
  have hmembers : db'.val.groupMembers.rows = db.val.groupMembers.rows.filter fun m => !(m.scimUserId == row.id) := by rw [hval]; rfl
  have haccounts : db'.val.accounts = db.val.accounts := by rw [hval]
  intro r hr horg
  rw [husers] at hr
  obtain ⟨hr,hother⟩ := List.mem_filter.mp hr
  have hid : r.id ≠ row.id := by simpa using hother
  have hnames : groupNamesOf db'.val ctx.orgId r.userId = groupNamesOf db.val ctx.orgId r.userId := by
    rw [groupNamesOf_eq,groupNamesOf_eq,hmembers]
    have hkept : (db.val.groupMembers.rows.filter fun m => !(m.scimUserId == row.id)).filterMap (nameFrom db'.val ctx.orgId r.userId) =
        (db.val.groupMembers.rows.filter fun m => !(m.scimUserId == row.id)).filterMap (nameFrom db.val ctx.orgId r.userId) := by
      refine List.filterMap_congr fun m hm => ?_
      have hother : m.scimUserId ≠ row.id := by simpa using (List.mem_filter.mp hm).2
      rw [nameFrom,nameFrom,hval]
      dsimp only
      rw [Table.lookup_deleteWhere]
      cases hlookup : db.val.scimUsers.lookup m.scimUserId with
      | none => rfl
      | some r' =>
        have hkeep : (!(r'.id == row.id)) = true := by simpa [Table.key_of_lookup hlookup] using hother
        rw [Option.filter_some,if_pos hkeep]
    rw [hkept]
    refine filterMap_filter_of_none fun m hm hp => nameFrom_none fun r' hr' horg' huser => hid ?_
    -- an account has one row in an organisation
    obtain ⟨hmem',hid'⟩ := Table.lookup_eq_some.mp hr'
    rw [scimUser_unique hr hmem' (horg.trans horg'.symm) huser.symm,hid']
    simpa using hp
  rw [haccounts,groupRole_congr hnames]
  exact h r hr horg

/-- A new row is added to the others, and no group has it yet. -/
theorem insertScimUser_adds (hrow : (RowWrite.insertScimUser row).apply db = some db') :
    db'.val.scimUsers.rows = db.val.scimUsers.rows ++ [row] ∧ db'.val.accounts = db.val.accounts ∧
    db.val.scimUsers.lookup row.id = none ∧ ∀ orgId userId, groupNamesOf db'.val orgId userId = groupNamesOf db.val orgId userId := by
  obtain ⟨rows,hrows,hval⟩ := Option.map_eq_some_iff.mp (RowWrite.apply_val hrow)
  rw [insertRow] at hrows
  split at hrows
  · rename_i hfresh
    cases hrows
    refine ⟨by rw [← hval]; rfl,by rw [← hval],hfresh,fun orgId userId => ?_⟩
    have hmembers : db'.val.groupMembers = db.val.groupMembers := by rw [← hval]
    rw [groupNamesOf_eq,groupNamesOf_eq,hmembers]
    refine List.filterMap_congr fun m hm => ?_
    -- the users of memberships are there already
    have hexists := (db.property.2.2.2.2.1 m hm).2
    have hother : m.scimUserId ≠ row.id := by
      intro hsame
      simp [hsame,hfresh] at hexists
    rw [nameFrom,nameFrom,← hval]
    dsimp only
    rw [Table.lookup_insert,if_neg hother]
  · simp at hrows

theorem rolesFollow_insertScimUser (horg : row.orgId = ctx.orgId)
    (h : ∀ r ∈ db.val.scimUsers.rows, r.orgId = ctx.orgId → r.userId ≠ row.userId →
      db.val.accounts.roleOf (ctx.orgId,r.userId) = some (groupRole ctx cm db.val r.userId))
    (hrole : (∀ r ∈ db.val.scimUsers.rows, r.orgId = ctx.orgId → r.userId ≠ row.userId) →
      db.val.accounts.roleOf (ctx.orgId,row.userId) = some ctx.defaultRole)
    (hrow : (RowWrite.insertScimUser row).apply db = some db') : RolesFollowGroups ctx cm db' := by
  obtain ⟨hrows,haccounts,hfresh,hnames⟩ := insertScimUser_adds hrow
  have hdistinct : ∀ r ∈ db.val.scimUsers.rows, r.orgId = ctx.orgId → r.userId ≠ row.userId := by
    intro r hr hown huser
    have hr' : r ∈ db'.val.scimUsers.rows := by rw [hrows]; exact List.mem_append_left _ hr
    have hrow' : row ∈ db'.val.scimUsers.rows := by rw [hrows]; exact List.mem_append_right _ List.mem_cons_self
    rw [scimUser_unique hr' hrow' (hown.trans horg.symm) huser] at hr
    exact Table.lookup_eq_none.mp hfresh row hr rfl
  intro r hr hown
  rw [haccounts,groupRole_congr (hnames _ r.userId)]
  rw [hrows] at hr
  rcases List.mem_append.mp hr with hr | hr
  · exact h r hr hown (hdistinct r hr hown)
  · obtain rfl := List.mem_singleton.mp hr
    have hnone : groupNamesOf db.val ctx.orgId r.userId = [] := by
      rw [groupNamesOf_eq,List.filterMap_eq_nil_iff]
      intro m _
      exact nameFrom_none fun r' hr' => hdistinct r' (Table.lookup_eq_some.mp hr').1
    rw [hrole hdistinct,groupRole,hnone]
    rfl

theorem resolveLocalUser_returns {email displayName : JsString} {newId userId : Nat}
    (h : (ScimService.resolveLocalUser email displayName newId).Returns db userId db') :
    (db' = db ∧ ∃ u, db.val.accounts.userByEmail email = some u ∧ u.id = userId) ∨
    userId = newId ∧ (RowWrite.account (.insertUser ⟨newId,email,displayName,none,none,false,.active⟩)).apply db = some db' := by
  obtain ⟨found,mid,hread,hnext⟩ := returns_bind.mp h
  obtain ⟨rfl,hfound⟩ := returns_read rfl hread
  cases found with
  | some u =>
    obtain ⟨rfl,rfl⟩ := hnext
    exact .inl ⟨rfl,u,hfound,rfl⟩
  | none =>
    obtain ⟨_,mid',hinsert,rfl,rfl⟩ := returns_bind.mp hnext
    exact .inr ⟨rfl,returns_write rfl hinsert⟩

/-- The transaction of `createUser`. -/
def createUserTx (cm : CaseMapping) (ctx : ScimContext) (body : ScimUser) (newUserId newId : Nat) : Request ScimUserRow := do
  let userId ← ScimService.resolveLocalUser ((primaryEmail cm body).getD (trim (body.userName.getD []))) (displayNameOf body) newUserId
  query (.insertMember ⟨ctx.orgId,userId,ctx.defaultRole⟩)
  let row := ⟨newId,ctx.orgId,userId,body.externalId,trim (body.userName.getD []),body.active.getD true⟩
  query (.insertScimUser row)
  if !body.active.getD true then query (.suspendUser userId)
  Pure.pure row

theorem only_createUserTx (body : ScimUser) (newUserId newId : Nat) :
    (createUserTx cm ctx body newUserId newId).Only (userStatement ctx) := by
  refine .bind (ScimService.only_resolveLocalUser _ _ _) fun userId => .bind (only_query ⟨rfl,rfl⟩) fun _ =>
    .bind (only_query rfl) fun _ => ?_
  exact .ite (.bind (only_query trivial) fun _ => trivial) trivial

theorem after_createUser (body : ScimUser) (newUserId newId : Nat) :
    (ScimService.createUser cm ctx body newUserId newId).after .database db = db ∨
    ((trim (body.userName.getD [])).isEmpty || !((primaryEmail cm body).getD (trim (body.userName.getD []))).contains AT) = false ∧
    (Sql.eval db.val (.scimUserNamed ctx.orgId (cm.toLowerCase (trim (body.userName.getD []))))).1 = none ∧
    ∃ row db', (createUserTx cm ctx body newUserId newId).Returns db row db' ∧
      (ScimService.createUser cm ctx body newUserId newId).after .database db = db' := by
  rw [ScimService.createUser]
  dsimp only
  split
  · exact .inl rfl
  · rename_i hname
    rw [query,after_query_bind rfl]
    generalize (directoryDatabase.eval db (Sql.scimUserNamed ctx.orgId (cm.toLowerCase (trim (body.userName.getD []))))).1 = existing
    cases existing with
    | some _ => exact .inl rfl
    | none =>
      rcases after_tx (only_createUserTx body newUserId newId) ApiError.database db with hreturns | hafter
      · exact .inr ⟨Bool.eq_false_iff.mpr hname,rfl,hreturns⟩
      · exact .inl hafter

/-- The account that `resolveLocalUser` finds or creates has no other role than the default one. -/
theorem resolveLocalUser_default (h : RolesFollowGroups ctx cm db) {body : ScimUser} {newUserId newId userId : Nat}
    (hfresh : StartsAtDefault ctx cm db (.createUser body newUserId newId))
    (hresolve : (ScimService.resolveLocalUser ((primaryEmail cm body).getD (trim (body.userName.getD [])))
    (displayNameOf body) newUserId).Returns
      db userId db') :
    RolesFollowGroups ctx cm db' ∧ ((∀ r ∈ db'.val.scimUsers.rows, r.orgId = ctx.orgId → r.userId ≠ userId) →
      ∀ role ∈ db'.val.accounts.roleOf (ctx.orgId,userId), role = ctx.defaultRole) := by
  rcases resolveLocalUser_returns hresolve with ⟨rfl,u,hu,rfl⟩ | ⟨rfl,hrow⟩
  · refine ⟨h,fun hnone => ?_⟩
    rcases hfresh u hu with ⟨r,hr,horg,huser⟩ | hdefault
    · exact absurd huser (hnone r hr horg)
    · exact hdefault
  · obtain ⟨happly,hval⟩ := RowWrite.account_apply hrow
    have hroles : ∀ userId, db'.val.accounts.roleOf (ctx.orgId,userId) = db.val.accounts.roleOf (ctx.orgId,userId) :=
      fun userId => AccountWrite.roleOf_apply happly _
    refine ⟨h.accounts hval hroles,fun _ role hrole => ?_⟩
    rw [hroles] at hrole
    obtain ⟨u,hu⟩ := AccountDb.member_user (Option.isSome_iff_exists.mpr ⟨role,hrole⟩)
    simp [AccountWrite.insertUser_fresh happly] at hu

theorem rolesFollow_linked {db₁ db₂ : DirectoryDb} (h : RolesFollowGroups ctx cm db) (horg : row.orgId = ctx.orgId)
    (hdefault : (∀ r ∈ db.val.scimUsers.rows, r.orgId = ctx.orgId → r.userId ≠ row.userId) →
      ∀ role ∈ db.val.accounts.roleOf (ctx.orgId,row.userId), role = ctx.defaultRole)
    (hmember : (RowWrite.account (.insertMember ⟨ctx.orgId,row.userId,ctx.defaultRole⟩)).apply db = some db₁)
    (hinsert : (RowWrite.insertScimUser row).apply db₁ = some db₂) : RolesFollowGroups ctx cm db₂ := by
  obtain ⟨happly,hval⟩ := RowWrite.account_apply hmember
  have hroles : ∀ k, db₁.val.accounts.roleOf k = _ := AccountWrite.roleOf_apply happly
  have husers : db₁.val.scimUsers = db.val.scimUsers := by rw [hval]; rfl
  refine rolesFollow_insertScimUser horg (fun r hr hown hother => ?_) (fun hnone => ?_) hinsert
  · have hkept : db₁.val.accounts.roleOf (ctx.orgId,r.userId) = db.val.accounts.roleOf (ctx.orgId,r.userId) :=
      (hroles _).trans (if_neg fun hkey => hother (Prod.mk.inj hkey).2)
    rw [husers] at hr
    rw [hkept,h r hr hown,hval]
    rfl
  · rw [husers] at hnone
    have hold := hdefault hnone
    refine (hroles _).trans ((if_pos rfl).trans ?_)
    cases hrole : db.val.accounts.roleOf (ctx.orgId,row.userId) with
    | none => rfl
    | some role =>
      rw [hold role hrole]
      rfl

theorem rolesFollow_createUser (h : RolesFollowGroups ctx cm db) {body : ScimUser} {newUserId newId : Nat}
    (hfresh : StartsAtDefault ctx cm db (.createUser body newUserId newId))
    (hreturns : (createUserTx cm ctx body newUserId newId).Returns db row db') : RolesFollowGroups ctx cm db' := by
  obtain ⟨userId,db₁,hresolve,hnext⟩ := returns_bind.mp hreturns
  obtain ⟨_,db₂,hmember,hnext⟩ := returns_bind.mp hnext
  obtain ⟨_,db₃,hinsert,hnext⟩ := returns_bind.mp hnext
  obtain ⟨hfollows,hdefault⟩ := resolveLocalUser_default h hfresh hresolve
  have hinserted : RolesFollowGroups ctx cm db₃ :=
    rolesFollow_linked hfollows rfl hdefault (returns_write rfl hmember) (returns_write rfl hinsert)
  split at hnext
  · obtain ⟨_,db₄,hsuspend,-,rfl⟩ := returns_bind.mp hnext
    exact rolesFollow_updateUser hinserted (returns_write rfl hsuspend)
  · obtain ⟨-,rfl⟩ := hnext
    exact hinserted

/-- The flag changes a status and no role. -/
theorem rolesFollow_applyActive (h : RolesFollowGroups ctx cm db) {userId : Nat} {active : Bool} {u : Unit}
    (hreturns : (ScimService.applyActive userId active).Returns db u db') : RolesFollowGroups ctx cm db' := by
  cases active with
  | false => exact rolesFollow_updateUser h (returns_write (q := .suspendUser userId) rfl hreturns)
  | true =>
    obtain ⟨hland,-⟩ := returns_query.mp (show (query (.reactivateUser userId)).Returns db u db' from hreturns)
    refine @Database.land_invariant directoryDatabase (RolesFollowGroups ctx cm) _ _ _ (fun w hw db db' hdb hrow => ?_) hland h
    have hw' : w = .account (.updateUser userId none (some .active)) := by
      change w ∈ (if _ then _ else _) at hw
      split at hw
      · exact List.mem_singleton.mp hw
      · simp at hw
    rw [hw'] at hrow
    exact rolesFollow_updateUser hdb hrow

end Users

section Runs
variable {d : Deployment} {ctx : ScimContext} {cm : CaseMapping} {db db' : DirectoryDb} {α : Type}

theorem rolesFollow_tx {S : Sql → Prop} {r : Request α} (h : RolesFollowGroups ctx cm db) (hr : r.Only S)
    (hreturns : ∀ a db', r.Returns db a db' → RolesFollowGroups ctx cm db') :
    RolesFollowGroups ctx cm ((transaction r).after .database db) := by
  rw [transaction]
  rcases after_tx hr ApiError.database db with ⟨a,db',hr',hafter⟩ | hafter
  · rw [hafter]
    exact hreturns a db' hr'
  · rw [hafter]
    exact h

theorem rolesFollow_loadUser {id : JsString} {g : ScimUserRow → Request α} (h : RolesFollowGroups ctx cm db)
    (hg : ∀ row, RolesFollowGroups ctx cm ((g row).after .database db)) :
    RolesFollowGroups ctx cm ((ScimService.loadUser ctx id >>= g).after .database db) := by
  rw [after_loadUser]
  cases scimAccount db ctx id with
  | none => exact h
  | some row => exact hg row

/-- A group is loaded, changed in a transaction and loaded again. -/
theorem rolesFollow_loadGroup {S : Sql → Prop} {id : JsString} {r : ScimGroupRow → Request α} (h : RolesFollowGroups ctx cm db)
    (hr : ∀ row, (r row).Only S) (hreturns : ∀ row a db', (r row).Returns db a db' → RolesFollowGroups ctx cm db') :
    RolesFollowGroups ctx cm ((ScimService.loadGroup ctx id >>= fun row =>
      transaction (r row) >>= fun _ => ScimService.loadGroup ctx id).after .database db) := by
  rw [after_loadGroup]
  cases scimGroupRow db ctx id with
  | none => exact h
  | some row =>
    have hreload : ∀ db', (ScimService.loadGroup ctx id).after .database db' = db' := by
      intro db'
      rw [← after_bind_pure ApiError.database (ScimService.loadGroup ctx id) (),after_loadGroup]
      cases scimGroupRow db' ctx id with
      | none => rfl
      | some row => rfl
    rcases after_tx_bind (hr row) (fun _ => ScimService.loadGroup ctx id) ApiError.database db with ⟨a,db',hr',hafter⟩ | hafter
    · rw [Option.elim_some,transaction,hafter,hreload]
      exact hreturns row a db' hr'
    · rw [Option.elim_some,transaction,hafter]
      exact h

theorem rolesFollow_replaceUser (h : RolesFollowGroups ctx cm db) (id : JsString) (body : ScimUser) :
    RolesFollowGroups ctx cm ((ScimService.replaceUser ctx id body).after .database db) := by
  refine rolesFollow_loadUser h fun row => rolesFollow_tx (S := userStatement ctx) h ?_ fun _ db' hreturns => ?_
  · exact .bind (only_query trivial) fun _ => .bind (ScimService.only_applyActive _ _) fun _ => .ite (only_query trivial) trivial
  · obtain ⟨_,db₁,hupdate,hnext⟩ := returns_bind.mp hreturns
    obtain ⟨_,db₂,hactive,hnext⟩ := returns_bind.mp hnext
    have h₂ := rolesFollow_applyActive (rolesFollow_updateScimUser h (returns_write rfl hupdate)) hactive
    rcases returns_ite hnext with ⟨-,hrename⟩ | ⟨-,-,rfl⟩
    · exact rolesFollow_updateUser h₂ (returns_write rfl hrename)
    · exact h₂

theorem rolesFollow_patchUser (h : RolesFollowGroups ctx cm db) (id : JsString) (operations : List PatchOp) :
    RolesFollowGroups ctx cm ((ScimService.patchUser cm ctx id operations).after .database db) := by
  refine rolesFollow_loadUser h fun row => rolesFollow_tx (S := userStatement ctx) h ?_ fun _ db' hreturns => ?_
  · exact .bind (only_query trivial) fun _ => ScimService.only_applyActive _ _
  · obtain ⟨_,db₁,hupdate,hactive⟩ := returns_bind.mp hreturns
    exact rolesFollow_applyActive (rolesFollow_updateScimUser h (returns_write rfl hupdate)) hactive

theorem rolesFollow_deleteUser (h : RolesFollowGroups ctx cm db) (id : JsString) :
    RolesFollowGroups ctx cm ((ScimService.deleteUser ctx id).after .database db) := by
  refine rolesFollow_loadUser h fun row => rolesFollow_tx (S := userStatement ctx) h ?_ fun _ db' hreturns => ?_
  · exact .bind (only_query trivial) fun _ => .ite (only_query trivial) trivial
  · obtain ⟨_,db₁,hdelete,hnext⟩ := returns_bind.mp hreturns
    have h₁ := rolesFollow_deleteScimUser h (returns_write rfl hdelete)
    rcases returns_ite hnext with ⟨-,hsuspend⟩ | ⟨-,-,rfl⟩
    · exact rolesFollow_updateUser h₁ (returns_write rfl hsuspend)
    · exact h₁

theorem rolesFollow_patchGroup (h : RolesFollowGroups ctx cm db) (id : JsString) (operations : List PatchOp) :
    RolesFollowGroups ctx cm ((ScimService.patchGroup cm ctx id operations).after .database db) := by
  refine rolesFollow_loadGroup (S := groupStatement cm ctx) h (fun row => ?_) fun row _ db' hreturns => ?_
  · exact .bind (ScimService.only_patchGroupOps _ operations) fun touched => ScimService.only_recomputeRoles touched
  · obtain ⟨touched,mid,hops,hrecompute⟩ := returns_bind.mp hreturns
    exact rolesFollow_recompute h (patchGroupOps_touches hops) hrecompute

theorem rolesFollow_deleteGroup (h : RolesFollowGroups ctx cm db) (id : JsString) :
    RolesFollowGroups ctx cm ((ScimService.deleteGroup cm ctx id).after .database db) := by
  rw [ScimService.deleteGroup,after_loadGroup]
  cases scimGroupRow db ctx id with
  | none => exact h
  | some row =>
    refine rolesFollow_tx (S := groupStatement cm ctx) h ?_ fun _ db' hreturns => ?_
    · exact .bind (only_query trivial) fun _ => .bind (only_query trivial) fun _ => ScimService.only_recomputeRoles _
    · obtain ⟨members,mid,hread,hnext⟩ := returns_bind.mp hreturns
      obtain ⟨rfl,rfl⟩ := returns_read rfl hread
      obtain ⟨_,mid',hdelete,hrecompute⟩ := returns_bind.mp hnext
      exact rolesFollow_recompute h (touches_deleteScimGroup (returns_write rfl hdelete)) hrecompute

theorem rolesFollow_replaceGroup (h : RolesFollowGroups ctx cm db) (id : JsString) (body : ScimGroup) :
    RolesFollowGroups ctx cm ((ScimService.replaceGroup cm ctx id body).after .database db) := by
  have honly : ∀ group : ScimGroupRow, (query (.memberUserIds group.id) >>= fun before : List Nat =>
      ScimService.setMembers ctx group.id body.members >>= fun after =>
      ScimService.recomputeRoles cm ctx (before ++ after)).Only (groupStatement cm ctx) :=
    fun group => .bind (only_query trivial) fun _ => .bind (ScimService.only_setMembers _ _) fun _ => ScimService.only_recomputeRoles _
  have hreturns : ∀ (group : ScimGroupRow) {start mid db' : DirectoryDb} {T : List Nat} {u : Unit}, RolesFollowGroups ctx cm start →
      Touches ctx.orgId T start mid → (∀ userId ∈ T, userId ∈ memberUserIds mid.val group.id) →
      (query (.memberUserIds group.id) >>= fun before : List Nat => ScimService.setMembers ctx group.id body.members >>= fun after =>
        ScimService.recomputeRoles cm ctx (before ++ after)).Returns mid u db' → RolesFollowGroups ctx cm db' := by
    intro group start mid db' T u hstart htouches hT hreturns
    obtain ⟨before,mid₁,hread,hnext⟩ := returns_bind.mp hreturns
    obtain ⟨rfl,rfl⟩ := returns_read rfl hread
    obtain ⟨after,mid₂,hset,hrecompute⟩ := returns_bind.mp hnext
    refine rolesFollow_recompute hstart ((htouches.trans (setMembers_touches hset)).mono fun userId hmem => ?_) hrecompute
    rcases List.mem_append.mp hmem with hmem | hmem
    · exact List.mem_append_left _ (hT userId hmem)
    · exact hmem
  refine rolesFollow_loadGroup (S := groupStatement cm ctx) h (fun row => ?_) fun row _ db' hr => ?_
  · dsimp only
    split
    · exact .bind (only_query trivial) fun _ => honly row
    · exact honly row
  · dsimp only at hr
    split at hr
    · obtain ⟨_,mid,hupdate,hr⟩ := returns_bind.mp hr
      have hrow := returns_write rfl hupdate
      have hval := (Option.some.inj (RowWrite.apply_val hrow)).symm
      have hmembers : memberUserIds mid.val row.id = memberUserIds db.val row.id := by rw [hval]; rfl
      exact hreturns row h (touches_updateScimGroup hrow) (fun _ hmem => hmembers ▸ hmem) hr
    · exact hreturns row h (Touches.refl db) (by simp) hr

theorem rolesFollow_createGroup (h : RolesFollowGroups ctx cm db) (body : ScimGroup) (newId : Nat) :
    RolesFollowGroups ctx cm ((ScimService.createGroup cm ctx body newId).after .database db) := by
  rw [ScimService.createGroup]
  dsimp only
  split
  · exact h
  · rw [query,after_query_bind rfl]
    generalize (directoryDatabase.eval db (Sql.scimGroupNamed ctx.orgId (cm.toLowerCase (trim (body.displayName.getD []))))).1 = existing
    cases existing with
    | some _ => exact h
    | none =>
      refine rolesFollow_tx (S := groupStatement cm ctx) h ?_ fun _ db' hreturns => ?_
      · exact .bind (only_query rfl) fun _ => .bind (ScimService.only_setMembers _ _) fun ids =>
          .bind (ScimService.only_recomputeRoles ids) fun _ => trivial
      · obtain ⟨_,mid,hinsert,hnext⟩ := returns_bind.mp hreturns
        obtain ⟨ids,mid',hset,hnext⟩ := returns_bind.mp hnext
        obtain ⟨_,mid'',hrecompute,-,rfl⟩ := returns_bind.mp hnext
        have hrow := returns_write rfl hinsert
        refine rolesFollow_recompute h
          (((touches_insertScimGroup hrow).trans (setMembers_touches hset)).mono fun userId hmem => ?_) hrecompute
        rw [memberUserIds_insertScimGroup hrow] at hmem
        simpa using hmem

theorem after_ignore (r : Request α) (db : DirectoryDb) : r.ignore.after .database db = r.after .database db :=
  after_bind_pure ApiError.database r () db

theorem rolesFollow_step {op : ScimOp} (h : RolesFollowGroups ctx d.cm db) (hdefault : StartsAtDefault ctx d.cm db op) :
    RolesFollowGroups ctx d.cm (((op.call ctx).body d 0).after .database db) := by
  cases op with
  | createUser body newUserId newId =>
    refine (after_ignore (ScimService.createUser d.cm ctx body newUserId newId) db).symm ▸ ?_
    rcases after_createUser body newUserId newId with hafter | ⟨-,-,row,db',hreturns,hafter⟩
    · rw [hafter]
      exact h
    · rw [hafter]
      exact rolesFollow_createUser h hdefault hreturns
  | replaceUser id body => exact rolesFollow_replaceUser h id body
  | patchUser id operations => exact rolesFollow_patchUser h id operations
  | deleteUser id => exact rolesFollow_deleteUser h id
  | createGroup body newId =>
      exact (after_ignore (ScimService.createGroup d.cm ctx body newId) db).symm ▸ rolesFollow_createGroup h body newId
  | replaceGroup id body => exact (after_ignore (ScimService.replaceGroup d.cm ctx id body) db).symm ▸ rolesFollow_replaceGroup h id body
  | patchGroup id operations =>
      exact (after_ignore (ScimService.patchGroup d.cm ctx id operations) db).symm ▸ rolesFollow_patchGroup h id operations
  | deleteGroup id => exact rolesFollow_deleteGroup h id

/-- As long as `createUser` finds no account that has kept another role than the default one,
every SCIM user has the role of its groups. -/
theorem scim_roles_follow_groups (hrun : Run (scimStep d ctx) (fun db op => StartsAtDefault ctx d.cm db op) db db')
    (h : RolesFollowGroups ctx d.cm db) : RolesFollowGroups ctx d.cm db' := by
  refine hrun.invariant (fun s op t hs hdefault hstep => ?_) h
  cases hstep
  exact rolesFollow_step hs hdefault

instance (ctx : ScimContext) (cm : CaseMapping) (db : DirectoryDb) : Decidable (RolesFollowGroups ctx cm db) :=
  inferInstanceAs (Decidable (∀ r ∈ db.val.scimUsers.rows, _ → _))

instance (ctx : ScimContext) (cm : CaseMapping) (db : DirectoryDb) : (op : ScimOp) → Decidable (StartsAtDefault ctx cm db op)
  | .createUser .. => inferInstanceAs (Decidable (∀ u ∈ AccountDb.userByEmail _ _, _ ∨ ∀ role ∈ AccountDb.roleOf _ _, _))
  | .replaceUser .. | .patchUser .. | .deleteUser .. | .createGroup .. | .replaceGroup .. | .patchGroup .. | .deleteGroup .. =>
    inferInstanceAs (Decidable True)

/-- Members of the group `admins` are admins of the third organisation, all others members. -/
def adminsContext : ScimContext := ⟨3,.member,[(js "admins",.admin)],true⟩

def createAda (newUserId newId : Nat) : ScimOp := .createUser ⟨some (js "ada@e.f"),none,none,none,[],none⟩ newUserId newId

def createAdmins : ScimOp := .createGroup ⟨some (js "admins"),none,[js "00000000-0000-0000-0000-000000000005"]⟩ 7

theorem ada_becomes_admin : ∃ t, Run (scimStep plainDeployment adminsContext) (fun db op => StartsAtDefault adminsContext asciiCase db op)
    twoTenantsDb t ∧ t.val.accounts.roleOf (3,9) = some .admin ∧ RolesFollowGroups adminsContext asciiCase t := by
  have hactions : (runActions (scimStep plainDeployment adminsContext) (fun db op => StartsAtDefault adminsContext asciiCase db op)
      twoTenantsDb [createAda 9 5,createAdmins]).map (·.val.accounts.roleOf (3,9)) = some (some .admin) := by decide
  obtain ⟨t,ht,hadmin⟩ := Option.map_eq_some_iff.mp hactions
  have hrun := Run.of_actions ht
  exact ⟨t,hrun,hadmin,scim_roles_follow_groups hrun (by decide)⟩

/-- A user that is deprovisioned and provisioned again is an admin of no group. -/
theorem returning_user_keeps_admin : RolesFollowGroups adminsContext asciiCase twoTenantsDb ∧
    (∀ m ∈ twoTenantsDb.val.accounts.members.rows, m.orgId ≠ 3) ∧
    ∃ t, Run (scimStep plainDeployment adminsContext) (fun _ _ => True) twoTenantsDb t ∧ ¬RolesFollowGroups adminsContext asciiCase t := by
  have hactions : (runActions (scimStep plainDeployment adminsContext) (fun _ _ => True) twoTenantsDb
      [createAda 9 5,createAdmins,.deleteUser (js "00000000-0000-0000-0000-000000000005"),createAda 10 6]).map
      (fun t => decide (RolesFollowGroups adminsContext asciiCase t)) = some false := by decide
  obtain ⟨t,ht,hbroken⟩ := Option.map_eq_some_iff.mp hactions
  exact ⟨by decide,by decide,t,.of_actions ht,of_decide_eq_false hbroken⟩

end Runs
end JustMail.Accounts
