import JustMail.Accounts.ScimRoles

/-! The switch `deactivate` of a SCIM configuration. `deleteUser` looks at it; the operations
that write the active flag of a user suspend and reactivate accounts without it, and
`createUser` suspends only. -/
namespace JustMail.Accounts
open Foundation Postfix Program

section Model
variable (cm : CaseMapping) (ctx : ScimContext) (db : DirectoryDb)

/-- No account is suspended that was not suspended before. -/
def NoneSuspended (db db' : DirectoryDb) : Prop := ∀ userId, db'.statusOf userId = some .suspended → db.statusOf userId = some .suspended

/-- The account of a SCIM user is suspended if its flag is off, and is not if it is on. -/
def FlagsHonoured : Prop :=
  ∀ r ∈ db.val.scimUsers.rows, r.orgId = ctx.orgId → (db.statusOf r.userId = some .suspended ↔ r.active = false)

/-- The account that `createUser` finds by its e-mail. -/
def linkedAccount (body : ScimUser) : Option UserRow :=
  db.val.accounts.userByEmail ((primaryEmail cm body).getD (trim (body.userName.getD [])))

/-- `createUser` is refused, or its transaction is rolled back: the name is no e-mail, or the
name or the account belongs to another SCIM user. -/
def RefusesUser (body : ScimUser) : Prop :=
  let userName := trim (body.userName.getD [])
  (userName.isEmpty || !((primaryEmail cm body).getD userName).contains AT) = true ∨
  ∃ r ∈ db.val.scimUsers.rows, r.orgId = ctx.orgId ∧ (db.val.accounts.lower r.userName = cm.toLowerCase userName ∨
    db.val.accounts.lower r.userName = db.val.accounts.lower userName ∨ (linkedAccount cm db body).map (·.id) = some r.userId)

/-- Another SCIM user of the organisation has the name, so that the row is not updated. -/
def NameTaken (row : ScimUserRow) (userName : JsString) : Prop :=
  ∃ r ∈ db.val.scimUsers.rows, r.orgId = row.orgId ∧ r.id ≠ row.id ∧
    db.val.accounts.lower r.userName = db.val.accounts.lower userName

/-- A flag that is off is written for an account that is suspended already. -/
def SuspendsNobody (row : ScimUserRow) (userName : JsString) (active : Bool) : Prop :=
  active = false → NameTaken db row userName ∨ db.statusOf row.userId = some .suspended

/-- With the switch off, flags that are off are written for suspended accounts only; with the
switch on, `createUser` finds no suspended account for a flag that is on. -/
def HonoursSwitch : ScimOp → Prop
  | .createUser body _ _ =>
    RefusesUser cm ctx db body ∨
    if ctx.deactivate then body.active.getD true = true → (linkedAccount cm db body).map (·.status) ≠ some .suspended
    else body.active.getD true = false → (linkedAccount cm db body).map (·.status) = some .suspended
  | .replaceUser id body => ctx.deactivate = false → ∀ row ∈ scimAccount db ctx id,
      SuspendsNobody db row (trim (body.userName.getD row.userName)) (body.active.getD true)
  | .patchUser id operations => ctx.deactivate = false → ∀ row ∈ scimAccount db ctx id,
      let patched := operations.foldl (ScimService.patchUserField cm) row
      SuspendsNobody db row patched.userName patched.active
  | _ => True

end Model

section Statuses
variable {db db' db'' : DirectoryDb} {userId : Nat}

theorem NoneSuspended.refl (db : DirectoryDb) : NoneSuspended db db := fun _ h => h

theorem NoneSuspended.trans (h : NoneSuspended db db') (h' : NoneSuspended db' db'') : NoneSuspended db db'' :=
  fun userId hsuspended => h userId (h' userId hsuspended)

theorem statusOf_congr (h : db'.val.accounts.users = db.val.accounts.users) (k : Nat) : db'.statusOf k = db.statusOf k := by
  rw [DirectoryDb.statusOf,DirectoryDb.statusOf,h]

theorem statusOf_updateUser {name : Option JsString} {status : Option UserStatus}
    (hrow : (RowWrite.account (.updateUser userId name status)).apply db = some db') (k : Nat) :
    db'.statusOf k = if k = userId then (db.statusOf k).map status.getD else db.statusOf k := by
  have happly := (RowWrite.account_apply hrow).1
  rw [DirectoryDb.statusOf,DirectoryDb.statusOf,AccountWrite.users_apply happly,AccountWrite.userAfter]
  cases hu : db.val.accounts.users.lookup k with
  | none => simp
  | some u =>
    rw [Option.map_some,Option.map_some]
    by_cases hk : k = userId
    · rw [if_pos hk,if_pos (by simpa [Table.key_of_lookup hu] using hk)]
      rfl
    · rw [if_neg hk,if_neg (by simpa [Table.key_of_lookup hu] using hk)]
      rfl

/-- The status that `applyActive` leaves. -/
def settled (active : Bool) (old : UserStatus) : UserStatus :=
  if active then if old = .suspended then .active else old else .suspended

theorem settled_suspended {active : Bool} {old : UserStatus} : settled active old = .suspended ↔ active = false := by
  cases active with
  | false => simp [settled]
  | true => cases old <;> simp [settled]

theorem applyActive_returns {active : Bool} {u : Unit} (h : (ScimService.applyActive userId active).Returns db u db') :
    db'.val.scimUsers = db.val.scimUsers ∧
    ∀ k, db'.statusOf k = if k = userId then (db.statusOf k).map (settled active) else db.statusOf k := by
  cases active with
  | false =>
    have hrow := returns_write (q := .suspendUser userId) rfl h
    exact ⟨by rw [(RowWrite.account_apply hrow).2]; rfl,statusOf_updateUser hrow⟩
  | true =>
    obtain ⟨hland,-⟩ := returns_query.mp (show (query (.reactivateUser userId)).Returns db u db' from h)
    by_cases hsuspended : db.statusOf userId = some .suspended
    · have hrows : (Sql.eval db.val (.reactivateUser userId)).2 = [.account (.updateUser userId none (some .active))] := by
        refine if_pos ?_
        obtain ⟨u,hu,hstatus⟩ := Option.map_eq_some_iff.mp hsuspended
        simp [hu,hstatus]
      have hrow : (RowWrite.account (.updateUser userId none (some .active))).apply db = some db' := land_one (hrows ▸ hland)
      refine ⟨by rw [(RowWrite.account_apply hrow).2]; rfl,fun k => ?_⟩
      rw [statusOf_updateUser hrow]
      split
      · rename_i hk
        rw [hk,hsuspended]
        rfl
      · rfl
    · obtain rfl := reactivate_nothing hsuspended hland
      refine ⟨rfl,fun k => ?_⟩
      split
      · rename_i hk
        rw [hk]
        cases hstatus : db'.statusOf userId with
        | none => rfl
        | some old =>
          have hother : old ≠ .suspended := fun hold => hsuspended (hold ▸ hstatus)
          rw [Option.map_some,settled,if_pos rfl,if_neg hother]
      · rfl

end Statuses

section Flags
variable {cm : CaseMapping} {ctx : ScimContext} {db db' : DirectoryDb} {userId : Nat} {active : Bool}

/-- A flag is written to the row of an account, and the account is suspended or not as it says. -/
structure FlagWritten (ctx : ScimContext) (userId : Nat) (active : Bool) (db db' : DirectoryDb) : Prop where
  row : ∃ r ∈ db'.val.scimUsers.rows, r.orgId = ctx.orgId ∧ r.userId = userId ∧ r.active = active
  rows : ∀ r ∈ db'.val.scimUsers.rows, r.orgId = ctx.orgId → r.userId ≠ userId → r ∈ db.val.scimUsers.rows
  status : db'.statusOf userId = some .suspended ↔ active = false
  others : ∀ k, k ≠ userId → db'.statusOf k = db.statusOf k

theorem FlagWritten.honoured (hwritten : FlagWritten ctx userId active db db') (h : FlagsHonoured ctx db) : FlagsHonoured ctx db' := by
  obtain ⟨row,hrow,horg,huser,hactive⟩ := hwritten.row
  intro r hr hown
  by_cases hsame : r.userId = userId
  · -- an account has one row in an organisation
    obtain rfl := scimUser_unique hr hrow (hown.trans horg.symm) (hsame.trans huser.symm)
    rw [huser,hwritten.status,hactive]
  · rw [hwritten.others _ hsame]
    exact h r (hwritten.rows r hr hown hsame) hown

theorem FlagWritten.noneSuspended (hwritten : FlagWritten ctx userId active db db')
    (h : active = false → db.statusOf userId = some .suspended) : NoneSuspended db db' := by
  intro k hk
  by_cases hsame : k = userId
  · rw [hsame] at hk ⊢
    exact h (hwritten.status.mp hk)
  · rwa [← hwritten.others k hsame]

theorem scimUser_status {r : ScimUserRow} (hr : r ∈ db.val.scimUsers.rows) : ∃ status, db.statusOf r.userId = some status := by
  obtain ⟨u,hu⟩ := Option.isSome_iff_exists.mp (db.property.2.2.2.1 r hr)
  exact ⟨u.status,by rw [DirectoryDb.statusOf,hu]; rfl⟩

theorem scimUser_named {r r' : ScimUserRow} (hr : r ∈ db.val.scimUsers.rows) (hr' : r' ∈ db.val.scimUsers.rows)
    (horg : r.orgId = r'.orgId) (hname : db.val.accounts.lower r.userName = db.val.accounts.lower r'.userName) : r = r' :=
  List.inj_on_of_nodup_map db.property.2.1 hr hr' (by simp [horg,hname])

theorem scimAccount_row {id : JsString} {row : ScimUserRow} (h : scimAccount db ctx id = some row) :
    row ∈ db.val.scimUsers.rows ∧ row.orgId = ctx.orgId := by
  obtain ⟨n,-,hrow⟩ := Option.bind_eq_some_iff.mp h
  obtain ⟨hlookup,horg⟩ := Option.filter_eq_some_iff.mp hrow
  exact ⟨(Table.lookup_eq_some.mp hlookup).1,by simpa using horg⟩

theorem flagWritten_update {db₁ : DirectoryDb} {row : ScimUserRow} (hrow : row ∈ db.val.scimUsers.rows) (horg : row.orgId = ctx.orgId)
    {externalId : Option JsString} {userName : JsString} {u : Unit}
    (hupdate : (RowWrite.updateScimUser row.id externalId userName active).apply db = some db₁)
    (hactive : (ScimService.applyActive row.userId active).Returns db₁ u db') :
    FlagWritten ctx row.userId active db db' ∧ ¬NameTaken db row userName := by
  have hval := (Option.some.inj (RowWrite.apply_val hupdate)).symm
  obtain ⟨husers,hstatus⟩ := applyActive_returns hactive
  have hrows : db₁.val.scimUsers.rows = db.val.scimUsers.rows.map fun r =>
      if r.id == row.id then { r with externalId := externalId, userName := userName, active := active } else r := by rw [hval]; rfl
  have hsame : ∀ k, db₁.statusOf k = db.statusOf k := statusOf_congr (by rw [hval])
  obtain ⟨r₁,hr₁,hid₁,horg₁,huser₁,hname₁,hactive₁⟩ : ∃ r ∈ db₁.val.scimUsers.rows, r.id = row.id ∧ r.orgId = row.orgId ∧
      r.userId = row.userId ∧ r.userName = userName ∧ r.active = active := by
    rw [hrows]
    exact ⟨_,List.mem_map.mpr ⟨row,hrow,if_pos (by simp)⟩,rfl,rfl,rfl,rfl,rfl⟩
  refine ⟨⟨⟨r₁,husers ▸ hr₁,horg₁.trans horg,huser₁,hactive₁⟩,fun r hr hown hother => ?_,?_,fun k hk => ?_⟩,?_⟩
  · rw [husers,hrows] at hr
    obtain ⟨r',hr',rfl⟩ := List.mem_map.mp hr
    split at hother
    · rename_i hid
      -- the row of the id is the one that is updated
      obtain rfl : r' = row := List.inj_on_of_nodup_map db.val.scimUsers.unique hr' hrow (eq_of_beq hid)
      exact absurd rfl hother
    · rename_i hid
      rwa [if_neg hid]
  · obtain ⟨old,hold⟩ := scimUser_status hrow
    rw [hstatus,if_pos rfl,hsame,hold,Option.map_some,Option.some.injEq]
    exact settled_suspended
  · rw [hstatus,if_neg hk]
    exact hsame k
  · rintro ⟨r,hr,hown,hid,hname⟩
    have hkept : r ∈ db₁.val.scimUsers.rows := by
      rw [hrows]
      exact List.mem_map.mpr ⟨r,hr,if_neg (by simpa using hid)⟩
    have hlower : db₁.val.accounts.lower r.userName = db₁.val.accounts.lower r₁.userName := by
      rw [hval,hname₁]
      exact hname
    obtain rfl := scimUser_named hkept hr₁ (hown.trans horg₁.symm) hlower
    exact hid hid₁

theorem FlagWritten.renamed {db'' : DirectoryDb} (hwritten : FlagWritten ctx userId active db db') {target : Nat} {name : JsString}
    (hrow : (RowWrite.account (.updateUser target (some name) none)).apply db' = some db'') : FlagWritten ctx userId active db db'' := by
  have husers : db''.val.scimUsers = db'.val.scimUsers := by rw [(RowWrite.account_apply hrow).2]; rfl
  have hstatus : ∀ k, db''.statusOf k = db'.statusOf k := by
    intro k
    rw [statusOf_updateUser hrow]
    split
    · exact Option.map_id' 
    · rfl
  refine ⟨by rw [husers]; exact hwritten.row,by rw [husers]; exact hwritten.rows,by rw [hstatus]; exact hwritten.status,fun k hk => ?_⟩
  rw [hstatus]
  exact hwritten.others k hk

/-- What an operation that writes a flag comes to, if it comes to anything. -/
def FlagOutcome (ctx : ScimContext) (id : JsString) (userName : ScimUserRow → JsString)
    (active : ScimUserRow → Bool) (db db' : DirectoryDb) : Prop :=
  db' = db ∨ ∃ row ∈ scimAccount db ctx id, FlagWritten ctx row.userId (active row) db db' ∧ ¬NameTaken db row (userName row)

theorem after_loadUser_tx {α : Type} {S : Sql → Prop} {id : JsString} {g : ScimUserRow → Request α} (hg : ∀ row, (g row).Only S) :
    (ScimService.loadUser ctx id >>= fun row => transaction (g row)).after .database db = db ∨
    ∃ row ∈ scimAccount db ctx id, ∃ a,
      (g row).Returns db a ((ScimService.loadUser ctx id >>= fun row => transaction (g row)).after .database db) := by
  rw [after_loadUser]
  cases hrow : scimAccount db ctx id with
  | none => exact .inl rfl
  | some row =>
    rcases after_tx (hg row) ApiError.database db with ⟨a,db',hreturns,hafter⟩ | hafter
    · refine .inr ⟨row,rfl,a,?_⟩
      rw [Option.elim_some,transaction,hafter]
      exact hreturns
    · exact .inl hafter

theorem replaceUser_outcome (id : JsString) (body : ScimUser) :
    FlagOutcome ctx id (fun row => trim (body.userName.getD row.userName)) (fun _ => body.active.getD true) db
      ((ScimService.replaceUser ctx id body).after .database db) := by
  refine (after_loadUser_tx (S := userStatement ctx) fun row => ?_).imp_right fun ⟨row,hrow,_,hreturns⟩ => ⟨row,hrow,?_⟩
  · exact .bind (only_query trivial) fun _ => .bind (ScimService.only_applyActive _ _) fun _ => .ite (only_query trivial) trivial
  · obtain ⟨hmem,horg⟩ := scimAccount_row hrow
    obtain ⟨_,db₁,hupdate,hnext⟩ := returns_bind.mp hreturns
    obtain ⟨_,db₂,hactive,hnext⟩ := returns_bind.mp hnext
    obtain ⟨hwritten,hfree⟩ := flagWritten_update hmem horg (returns_write rfl hupdate) hactive
    rcases returns_ite hnext with ⟨-,hrename⟩ | ⟨-,-,rfl⟩
    · exact ⟨hwritten.renamed (returns_write rfl hrename),hfree⟩
    · exact ⟨hwritten,hfree⟩

theorem patchUser_outcome (id : JsString) (operations : List PatchOp) :
    FlagOutcome ctx id (fun row => (operations.foldl (ScimService.patchUserField cm) row).userName)
      (fun row => (operations.foldl (ScimService.patchUserField cm) row).active) db
      ((ScimService.patchUser cm ctx id operations).after .database db) := by
  refine (after_loadUser_tx (S := userStatement ctx) fun row => ?_).imp_right fun ⟨row,hrow,_,hreturns⟩ => ⟨row,hrow,?_⟩
  · exact .bind (only_query trivial) fun _ => ScimService.only_applyActive _ _
  · obtain ⟨hmem,horg⟩ := scimAccount_row hrow
    obtain ⟨_,db₁,hupdate,hactive⟩ := returns_bind.mp hreturns
    exact flagWritten_update hmem horg (returns_write rfl hupdate) hactive

end Flags

section Creation
variable {cm : CaseMapping} {ctx : ScimContext} {db db' : DirectoryDb} {body : ScimUser} {newUserId newId : Nat}

theorem resolveLocalUser_status {email displayName : JsString} {userId : Nat}
    (h : (ScimService.resolveLocalUser email displayName newUserId).Returns db userId db') :
    db'.val.scimUsers = db.val.scimUsers ∧ (∀ u, db.val.accounts.userByEmail email = some u → u.id = userId) ∧
    db'.statusOf userId = some ((db.val.accounts.userByEmail email).elim .active (·.status)) ∧
    ∀ k, k ≠ userId → db'.statusOf k = db.statusOf k := by
  rcases resolveLocalUser_returns h with ⟨rfl,u,hu,rfl⟩ | ⟨rfl,hrow⟩
  · refine ⟨rfl,fun u' hu' => by rw [hu] at hu'; rw [Option.some.inj hu'],?_,fun k _ => rfl⟩
    rw [hu,DirectoryDb.statusOf,AccountDb.lookup_of_userByEmail hu]
    rfl
  · obtain ⟨happly,hval⟩ := RowWrite.account_apply hrow
    have hnone := (AccountDb.insertUser_spec happly).2.1
    have husers := AccountWrite.users_apply happly
    refine ⟨by rw [hval]; rfl,fun u hu => ?_,?_,fun k hk => ?_⟩
    · simp [hnone] at hu
    · rw [hnone,DirectoryDb.statusOf,husers,AccountWrite.userAfter,if_pos rfl]
      rfl
    · rw [DirectoryDb.statusOf,DirectoryDb.statusOf,husers,AccountWrite.userAfter,if_neg hk]

/-- What `createUser` adds, and the status it leaves. -/
structure UserCreated (cm : CaseMapping) (ctx : ScimContext) (body : ScimUser) (newId userId : Nat) (db db' : DirectoryDb) : Prop where
  linked : ∀ u, linkedAccount cm db body = some u → u.id = userId
  fresh : db.val.scimUsers.lookup newId = none
  rows : db'.val.scimUsers.rows =
    db.val.scimUsers.rows ++ [⟨newId,ctx.orgId,userId,body.externalId,trim (body.userName.getD []),body.active.getD true⟩]
  status : db'.statusOf userId = some (if body.active.getD true then (linkedAccount cm db body).elim .active (·.status) else .suspended)
  others : ∀ k, k ≠ userId → db'.statusOf k = db.statusOf k
  collation : db'.val.accounts.collation = db.val.accounts.collation

theorem createUserTx_created {row : ScimUserRow} (hreturns : (createUserTx cm ctx body newUserId newId).Returns db row db') :
    ∃ userId, UserCreated cm ctx body newId userId db db' := by
  have hcollation := returns_collation hreturns
  obtain ⟨userId,db₁,hresolve,hnext⟩ := returns_bind.mp hreturns
  obtain ⟨_,db₂,hmember,hnext⟩ := returns_bind.mp hnext
  obtain ⟨_,db₃,hinsert,hnext⟩ := returns_bind.mp hnext
  obtain ⟨husers₁,hlinked,hstatus₁,hothers₁⟩ := resolveLocalUser_status hresolve
  obtain ⟨happly₂,hval₂⟩ := RowWrite.account_apply (returns_write rfl hmember)
  obtain ⟨hrows₃,haccounts₃,hfresh₃,-⟩ := insertScimUser_adds (returns_write rfl hinsert)
  have husers₂ : db₂.val.scimUsers = db.val.scimUsers := by rw [hval₂]; exact husers₁
  have hstatus₃ : ∀ k, db₃.statusOf k = db₁.statusOf k :=
    statusOf_congr (by rw [haccounts₃]; exact AccountDb.insertMember_users happly₂)
  rw [husers₂] at hrows₃ hfresh₃
  refine ⟨userId,?_⟩
  cases hactive : body.active.getD true with
  | false =>
    rw [hactive] at hnext hrows₃
    obtain ⟨_,db₄,hsuspend,-,rfl⟩ := returns_bind.mp hnext
    have hrow := returns_write rfl hsuspend
    have hstatus₄ := statusOf_updateUser hrow
    refine ⟨hlinked,hfresh₃,?_,?_,fun k hk => ?_,hcollation⟩
    · rw [(RowWrite.account_apply hrow).2,hactive]
      exact hrows₃
    · rw [hstatus₄,if_pos rfl,hstatus₃,hstatus₁,hactive]
      rfl
    · rw [hstatus₄,if_neg hk,hstatus₃]
      exact hothers₁ k hk
  | true =>
    rw [hactive] at hnext hrows₃
    obtain ⟨-,rfl⟩ := hnext
    refine ⟨hlinked,hfresh₃,by rw [hactive]; exact hrows₃,?_,fun k hk => ?_,hcollation⟩
    · rw [hstatus₃,hstatus₁,hactive]
      rfl
    · rw [hstatus₃]
      exact hothers₁ k hk

variable {userId : Nat}

theorem UserCreated.row_mem (h : UserCreated cm ctx body newId userId db db') :
    ⟨newId,ctx.orgId,userId,body.externalId,trim (body.userName.getD []),body.active.getD true⟩ ∈ db'.val.scimUsers.rows := by
  rw [h.rows]
  exact List.mem_append_right _ List.mem_cons_self

theorem UserCreated.distinct (h : UserCreated cm ctx body newId userId db db') {r : ScimUserRow} (hr : r ∈ db.val.scimUsers.rows)
    (horg : r.orgId = ctx.orgId) : r.userId ≠ userId ∧
    db.val.accounts.lower r.userName ≠ db.val.accounts.lower (trim (body.userName.getD [])) := by
  have hr' : r ∈ db'.val.scimUsers.rows := by
    rw [h.rows]
    exact List.mem_append_left _ hr
  have hother : r.id ≠ newId := Table.lookup_eq_none.mp h.fresh r hr
  refine ⟨fun huser => hother ?_,fun hname => hother ?_⟩
  · rw [scimUser_unique hr' h.row_mem horg huser]
  · rw [AccountDb.lower,← h.collation] at hname
    rw [scimUser_named hr' h.row_mem horg hname]

/-- The status agrees with the flag, unless a suspended account is found for one that is on. -/
theorem UserCreated.written (h : UserCreated cm ctx body newId userId db db')
    (hlinked : body.active.getD true = true → (linkedAccount cm db body).map (·.status) ≠ some .suspended) :
    FlagWritten ctx userId (body.active.getD true) db db' := by
  refine ⟨⟨_,h.row_mem,rfl,rfl,rfl⟩,fun r hr _ hother => ?_,?_,h.others⟩
  · rw [h.rows] at hr
    rcases List.mem_append.mp hr with hr | hr
    · exact hr
    · rw [List.mem_singleton.mp hr] at hother
      exact absurd rfl hother
  · rw [h.status,Option.some.injEq]
    cases hactive : body.active.getD true with
    | false => simp
    | true =>
      have hnot := hlinked hactive
      cases hu : linkedAccount cm db body with
      | none => simp
      | some u => simpa [hu] using hnot

/-- Nobody is suspended by a flag that is on, nor by one that is off for a suspended account. -/
theorem UserCreated.noneSuspended (h : UserCreated cm ctx body newId userId db db')
    (hlinked : body.active.getD true = false → (linkedAccount cm db body).map (·.status) = some .suspended) : NoneSuspended db db' := by
  intro k hk
  by_cases hsame : k = userId
  · rw [hsame] at hk ⊢
    have hfound : (linkedAccount cm db body).map (·.status) = some .suspended := by
      cases hactive : body.active.getD true with
      | false => exact hlinked hactive
      | true =>
        rw [h.status,hactive,if_pos rfl] at hk
        cases hu : linkedAccount cm db body with
        | none => simp [hu] at hk
        | some u => simpa [hu] using hk
    obtain ⟨u,hu,hstatus⟩ := Option.map_eq_some_iff.mp hfound
    rw [← h.linked u hu,DirectoryDb.statusOf,AccountDb.lookup_of_userByEmail hu,Option.map_some,hstatus]
  · rwa [← h.others k hsame]

/-- Either nothing happens, or the user is created, which it is not where `createUser` refuses. -/
theorem createUser_outcome (body : ScimUser) (newUserId newId : Nat) :
    (ScimService.createUser cm ctx body newUserId newId).after .database db = db ∨
    ¬RefusesUser cm ctx db body ∧
    ∃ userId, UserCreated cm ctx body newId userId db ((ScimService.createUser cm ctx body newUserId newId).after .database db) := by
  rcases after_createUser body newUserId newId with hafter | ⟨hname,hfree,row,db',hreturns,hafter⟩
  · exact .inl hafter
  · obtain ⟨userId,hcreated⟩ := createUserTx_created hreturns
    refine .inr ⟨?_,userId,hafter ▸ hcreated⟩
    rintro (hrefused | ⟨r,hr,horg,htaken | htaken | htaken⟩)
    · exact Bool.false_ne_true (hname.symm.trans hrefused)
    · have hother := List.find?_eq_none.mp hfree r hr
      simp [horg,htaken] at hother
    · exact (hcreated.distinct hr horg).2 htaken
    · obtain ⟨u,hu,huser⟩ := Option.map_eq_some_iff.mp htaken
      exact (hcreated.distinct hr horg).1 (huser.symm.trans (hcreated.linked u hu))

/-- The row goes, and with the switch on its account is suspended. -/
structure UserDeleted (ctx : ScimContext) (row : ScimUserRow) (db db' : DirectoryDb) : Prop where
  rows : ∀ r ∈ db'.val.scimUsers.rows, r ∈ db.val.scimUsers.rows ∧ r.id ≠ row.id
  others : ∀ k, (ctx.deactivate = true → k ≠ row.userId) → db'.statusOf k = db.statusOf k

theorem deleteUserTx_deleted {row : ScimUserRow} {u : Unit} (hreturns : (do
      query (.deleteScimUser row.id)
      if ctx.deactivate then query (.suspendUser row.userId) : Request Unit).Returns db u db') : UserDeleted ctx row db db' := by
  obtain ⟨_,db₁,hdelete,hnext⟩ := returns_bind.mp hreturns
  have hdeleted : (RowWrite.deleteScimUser row.id).apply db = some db₁ := returns_write rfl hdelete
  have hval := (Option.some.inj (RowWrite.apply_val hdeleted)).symm
  have hrows : ∀ r ∈ db₁.val.scimUsers.rows, r ∈ db.val.scimUsers.rows ∧ r.id ≠ row.id := by
    rw [hval]
    intro r hr
    obtain ⟨hr,hid⟩ := List.mem_filter.mp hr
    exact ⟨hr,by simpa using hid⟩
  have hsame : ∀ k, db₁.statusOf k = db.statusOf k := statusOf_congr (by rw [hval])
  rcases returns_ite hnext with ⟨hon,hsuspend⟩ | ⟨-,-,rfl⟩
  · have hsuspended := returns_write (q := .suspendUser row.userId) rfl hsuspend
    refine ⟨by rw [(RowWrite.account_apply hsuspended).2]; exact hrows,fun k hk => ?_⟩
    rw [statusOf_updateUser hsuspended,if_neg (hk hon),hsame]
  · exact ⟨hrows,fun k _ => hsame k⟩

theorem deleteUser_outcome (id : JsString) :
    (ScimService.deleteUser ctx id).after .database db = db ∨
    ∃ row ∈ scimAccount db ctx id, UserDeleted ctx row db ((ScimService.deleteUser ctx id).after .database db) := by
  refine (after_loadUser_tx (S := userStatement ctx) fun row => ?_).imp_right fun ⟨row,hrow,_,hreturns⟩ =>
    ⟨row,hrow,deleteUserTx_deleted hreturns⟩
  exact .bind (only_query trivial) fun _ => .ite (only_query trivial) trivial

theorem UserDeleted.honoured {row : ScimUserRow} (hdeleted : UserDeleted ctx row db db') (hrow : row ∈ db.val.scimUsers.rows)
    (horg : row.orgId = ctx.orgId) (h : FlagsHonoured ctx db) : FlagsHonoured ctx db' := by
  intro r hr hown
  obtain ⟨hr,hid⟩ := hdeleted.rows r hr
  have hother : r.userId ≠ row.userId := by
    intro huser
    exact hid (congrArg ScimUserRow.id (scimUser_unique hr hrow (hown.trans horg.symm) huser))
  rw [hdeleted.others r.userId fun _ => hother]
  exact h r hr hown

/-- Rows about groups, and the role of a member. -/
def RowWrite.OfGroups : RowWrite → Prop
  | .account (.upsertMember _) => True
  | .account _ | .insertScimUser _ | .updateScimUser _ _ _ _ | .deleteScimUser _ | .upsertLdapIdentity _ => False
  | _ => True

def SameUsers (db db' : DirectoryDb) : Prop :=
  db'.val.scimUsers = db.val.scimUsers ∧ db'.val.accounts.users = db.val.accounts.users

theorem SameUsers.apply {start : DirectoryDb} (h : SameUsers start db) {w : RowWrite} (hw : w.OfGroups) (hrow : w.apply db = some db') :
    SameUsers start db' := by
  have hval := RowWrite.apply_val hrow
  cases w with
  | account v =>
    cases v with
    | upsertMember m =>
      obtain ⟨happly,hval⟩ := RowWrite.account_apply hrow
      exact ⟨by rw [hval]; exact h.1,(AccountDb.upsertMember_users happly).trans h.2⟩
    | _ => exact hw.elim
  | insertScimGroup r =>
    obtain ⟨groups,-,hval⟩ := Option.map_eq_some_iff.mp hval
    rw [SameUsers,← hval]
    exact h
  | insertScimUser r => exact hw.elim
  | updateScimUser id externalId userName active => exact hw.elim
  | deleteScimUser id => exact hw.elim
  | upsertLdapIdentity i => exact hw.elim
  | _ =>
    rw [SameUsers,← Option.some.inj hval]
    exact h

theorem ofGroups_of_eval {q : Sql} (hq : groupStatement cm ctx q) {t : DirectoryTables}
    {w : RowWrite} (hw : w ∈ (q.eval t).2) : w.OfGroups := by
  cases q with
  | insertScimGroup r => rw [List.mem_singleton.mp hw]; trivial
  | upsertMember m => rw [List.mem_singleton.mp hw]; trivial
  | updateScimGroup groupId displayName externalId => rw [List.mem_singleton.mp hw]; trivial
  | deleteScimGroup groupId => rw [List.mem_singleton.mp hw]; trivial
  | insertGroupMember m => rw [List.mem_singleton.mp hw]; trivial
  | deleteGroupMember m => rw [List.mem_singleton.mp hw]; trivial
  | clearGroup groupId =>
    obtain ⟨m,-,rfl⟩ := List.mem_map.mp hw
    trivial
  | scimUser orgId id => exact (List.not_mem_nil hw).elim
  | scimGroupNamed orgId name => exact (List.not_mem_nil hw).elim
  | scimGroup orgId id => exact (List.not_mem_nil hw).elim
  | groupNamesOf orgId userId => exact (List.not_mem_nil hw).elim
  | memberUserIds groupId => exact (List.not_mem_nil hw).elim
  | _ => exact hq.elim

theorem groups_sameUsers {r : Request Unit} (hr : r.Within (groupStatement cm ctx)) : SameUsers db (r.after .database db) := by
  refine (Within.keeps hr fun q hq db₁ db₂ h₁ hland => ?_).after ⟨rfl,rfl⟩
  exact @Database.land_invariant directoryDatabase (SameUsers db) _ _ _
    (fun w hw _ _ h hrow => h.apply (ofGroups_of_eval hq hw) hrow) hland h₁

end Creation

section Runs
variable {d : Deployment} {ctx : ScimContext} {db db' : DirectoryDb}

theorem noneSuspended_outcome {id : JsString} {userName : ScimUserRow → JsString} {active : ScimUserRow → Bool}
    (h : FlagOutcome ctx id userName active db db')
    (hspares : ∀ row ∈ scimAccount db ctx id, SuspendsNobody db row (userName row) (active row)) :
    NoneSuspended db db' := by
  rcases h with rfl | ⟨row,hrow,hwritten,hfree⟩
  · exact NoneSuspended.refl _
  · exact hwritten.noneSuspended fun hinactive => (hspares row hrow hinactive).resolve_left hfree

theorem SameUsers.noneSuspended (h : SameUsers db db') : NoneSuspended db db' :=
  fun k hk => (statusOf_congr h.2 k).symm.trans hk

theorem SameUsers.honoured (h : SameUsers db db') (hdb : FlagsHonoured ctx db) : FlagsHonoured ctx db' := by
  intro r hr hown
  rw [statusOf_congr h.2]
  exact hdb r (h.1 ▸ hr) hown

theorem noneSuspended_step (hoff : ctx.deactivate = false) {op : ScimOp} (hop : HonoursSwitch d.cm ctx db op) :
    NoneSuspended db (((op.call ctx).body d 0).after .database db) := by
  cases op with
  | createUser body newUserId newId =>
    refine (after_ignore (ScimService.createUser d.cm ctx body newUserId newId) db).symm ▸ ?_
    rcases createUser_outcome body newUserId newId with hafter | ⟨hnot,userId,hcreated⟩
    · rw [hafter]
      exact NoneSuspended.refl db
    · have hflag := hop.resolve_left hnot
      rw [hoff] at hflag
      exact hcreated.noneSuspended hflag
  | replaceUser id body => exact noneSuspended_outcome (replaceUser_outcome id body) (hop hoff)
  | patchUser id operations => exact noneSuspended_outcome (patchUser_outcome id operations) (hop hoff)
  | deleteUser id =>
    rcases deleteUser_outcome id with hafter | ⟨row,-,hdeleted⟩
    · exact hafter.symm ▸ NoneSuspended.refl db
    · exact fun k hk => (hdeleted.others k fun hon => by simp [hoff] at hon).symm.trans hk
  | createGroup body newId => exact (groups_sameUsers (within_ignore (ScimService.within_createGroup body newId))).noneSuspended
  | replaceGroup id body => exact (groups_sameUsers (within_ignore (ScimService.within_replaceGroup id body))).noneSuspended
  | patchGroup id operations => exact (groups_sameUsers (within_ignore (ScimService.within_patchGroup id operations))).noneSuspended
  | deleteGroup id => exact (groups_sameUsers (ScimService.within_deleteGroup id)).noneSuspended

theorem honoured_step (hon : ctx.deactivate = true) {op : ScimOp} (hop : HonoursSwitch d.cm ctx db op) (h : FlagsHonoured ctx db) :
    FlagsHonoured ctx (((op.call ctx).body d 0).after .database db) := by
  have houtcome : ∀ {id userName active db'}, FlagOutcome ctx id userName active db db' → FlagsHonoured ctx db' := by
    rintro id userName active db' (rfl | ⟨row,hrow,hwritten,-⟩)
    · exact h
    · exact hwritten.honoured h
  cases op with
  | createUser body newUserId newId =>
    refine (after_ignore (ScimService.createUser d.cm ctx body newUserId newId) db).symm ▸ ?_
    rcases createUser_outcome body newUserId newId with hafter | ⟨hnot,userId,hcreated⟩
    · rw [hafter]
      exact h
    · have hflag := hop.resolve_left hnot
      rw [hon] at hflag
      exact (hcreated.written hflag).honoured h
  | replaceUser id body => exact houtcome (replaceUser_outcome id body)
  | patchUser id operations => exact houtcome (patchUser_outcome id operations)
  | deleteUser id =>
    rcases deleteUser_outcome id with hafter | ⟨row,hrow,hdeleted⟩
    · exact hafter.symm ▸ h
    · obtain ⟨hmem,horg⟩ := scimAccount_row hrow
      exact hdeleted.honoured hmem horg h
  | createGroup body newId => exact (groups_sameUsers (within_ignore (ScimService.within_createGroup body newId))).honoured h
  | replaceGroup id body => exact (groups_sameUsers (within_ignore (ScimService.within_replaceGroup id body))).honoured h
  | patchGroup id operations => exact (groups_sameUsers (within_ignore (ScimService.within_patchGroup id operations))).honoured h
  | deleteGroup id => exact (groups_sameUsers (ScimService.within_deleteGroup id)).honoured h

/-- As long as flags that are off concern suspended accounts, the switch that is off suspends
nobody; as long as no suspended account is provisioned anew, the one that is on keeps every
account as its flag says. -/
theorem deactivate_switch_honoured (hrun : Run (scimStep d ctx) (fun db op => HonoursSwitch d.cm ctx db op) db db') :
    (ctx.deactivate = false → NoneSuspended db db' ∧
      ∀ op db'', HonoursSwitch d.cm ctx db' op → scimStep d ctx db' op = some db'' → NoneSuspended db' db'') ∧
    (ctx.deactivate = true → FlagsHonoured ctx db → FlagsHonoured ctx db') := by
  refine ⟨fun hoff => ⟨?_,fun op db'' hop hstep => ?_⟩,fun hon h => ?_⟩
  · refine hrun.invariant (fun s op t hs hop hstep => ?_) (NoneSuspended.refl db)
    cases hstep
    exact hs.trans (noneSuspended_step hoff hop)
  · cases hstep
    exact noneSuspended_step hoff hop
  · refine hrun.invariant (fun s op t hs hop hstep => ?_) h
    cases hstep
    exact honoured_step hon hop hs

instance (ctx : ScimContext) (db : DirectoryDb) : Decidable (FlagsHonoured ctx db) :=
  inferInstanceAs (Decidable (∀ r ∈ db.val.scimUsers.rows, _ → (_ ↔ _)))

instance (cm : CaseMapping) (ctx : ScimContext) (db : DirectoryDb) (body : ScimUser) : Decidable (RefusesUser cm ctx db body) :=
  inferInstanceAs (Decidable (_ = true ∨ ∃ r ∈ db.val.scimUsers.rows, _ ∧ (_ ∨ _ ∨ _)))

instance (db : DirectoryDb) (row : ScimUserRow) (userName : JsString) (active : Bool) :
    Decidable (SuspendsNobody db row userName active) :=
  inferInstanceAs (Decidable (_ → (∃ r ∈ db.val.scimUsers.rows, _ ∧ _ ∧ _) ∨ _))

instance (cm : CaseMapping) (ctx : ScimContext) (db : DirectoryDb) : (op : ScimOp) → Decidable (HonoursSwitch cm ctx db op)
  | .createUser body _ _ => inferInstanceAs (Decidable (RefusesUser cm ctx db body ∨ if ctx.deactivate then
      body.active.getD true = true → (linkedAccount cm db body).map (·.status) ≠ some .suspended
      else body.active.getD true = false → (linkedAccount cm db body).map (·.status) = some .suspended))
  | .replaceUser id _ => inferInstanceAs (Decidable (_ → ∀ row ∈ scimAccount db ctx id, SuspendsNobody db row _ _))
  | .patchUser id _ => inferInstanceAs (Decidable (_ → ∀ row ∈ scimAccount db ctx id, SuspendsNobody db row _ _))
  | .deleteUser .. | .createGroup .. | .replaceGroup .. | .patchGroup .. | .deleteGroup .. => inferInstanceAs (Decidable True)

def switchOff : ScimContext := { adminsContext with deactivate := false }

def adasId : JsString := js "00000000-0000-0000-0000-000000000005"

/-- `active` spelled as a text. -/
def setActive (value : String) : ScimOp := .patchUser adasId [⟨js "Replace",some (js "active"),some (.string (js value))⟩]

theorem ada_comes_and_goes :
    ∃ t t', Run (scimStep plainDeployment switchOff) (fun db op => HonoursSwitch asciiCase switchOff db op) twoTenantsDb t ∧
    t.statusOf 9 = some .active ∧ NoneSuspended twoTenantsDb t ∧
    Run (scimStep plainDeployment adminsContext) (fun db op => HonoursSwitch asciiCase adminsContext db op) twoTenantsDb t' ∧
    t'.statusOf 9 = some .suspended ∧ FlagsHonoured adminsContext t' := by
  have hoff : (runActions (scimStep plainDeployment switchOff) (fun db op => HonoursSwitch asciiCase switchOff db op) twoTenantsDb
      [createAda 9 5,setActive "True",.deleteUser adasId]).map (·.statusOf 9) = some (some .active) := by decide
  have hon : (runActions (scimStep plainDeployment adminsContext) (fun db op => HonoursSwitch asciiCase adminsContext db op) twoTenantsDb
      [createAda 9 5,setActive "False"]).map (·.statusOf 9) = some (some .suspended) := by decide
  obtain ⟨t,ht,hactive⟩ := Option.map_eq_some_iff.mp hoff
  obtain ⟨t',ht',hsuspended⟩ := Option.map_eq_some_iff.mp hon
  have hrun := Run.of_actions ht
  have hrun' := Run.of_actions ht'
  exact ⟨t,t',hrun,hactive,((deactivate_switch_honoured hrun).1 rfl).1,hrun',hsuspended,
    (deactivate_switch_honoured hrun').2 rfl (by decide)⟩

/-- `patchUser` suspends with the switch off, and a user who comes back stays suspended. -/
theorem switch_ignored :
    (∃ t, Run (scimStep plainDeployment switchOff) (fun _ _ => True) twoTenantsDb t ∧ ¬NoneSuspended twoTenantsDb t) ∧
    FlagsHonoured adminsContext twoTenantsDb ∧
    ∃ t, Run (scimStep plainDeployment adminsContext) (fun _ _ => True) twoTenantsDb t ∧ ¬FlagsHonoured adminsContext t := by
  have hoff : (runActions (scimStep plainDeployment switchOff) (fun _ _ => True) twoTenantsDb [createAda 9 5,setActive "False"]).map
      (·.statusOf 9) = some (some .suspended) := by decide
  have hon : (runActions (scimStep plainDeployment adminsContext) (fun _ _ => True) twoTenantsDb
      [createAda 9 5,.deleteUser adasId,createAda 10 6]).map (fun t => decide (FlagsHonoured adminsContext t)) = some false := by decide
  obtain ⟨t,ht,hsuspended⟩ := Option.map_eq_some_iff.mp hoff
  obtain ⟨t',ht',hbroken⟩ := Option.map_eq_some_iff.mp hon
  refine ⟨⟨t,.of_actions ht,fun hnone => ?_⟩,by decide,t',.of_actions ht',of_decide_eq_false hbroken⟩
  have hstart : twoTenantsDb.statusOf 9 ≠ some .suspended := by decide
  exact hstart (hnone 9 hsuspended)

end Runs
end JustMail.Accounts
