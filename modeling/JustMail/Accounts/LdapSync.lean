import JustMail.Accounts.TenantIsolation

/-! The syncs of one LDAP directory. Links from DNs to accounts are added and never taken
away, and the pass that suspends accounts goes over the links. -/
namespace JustMail.Accounts
open Foundation Postfix Program

section Model
variable (cm : CaseMapping)

/-- An entry as the search returns it, with the values of its attributes as text. -/
structure LdapEntry where
  dn : JsString
  attributes : JsString → List JsString

structure MappingConfig where
  emailAttribute : JsString
  nameAttribute : JsString
  memberAttribute : JsString

def allAttr (entry : LdapEntry) (attr : JsString) : List JsString := (entry.attributes attr).filter fun v => !v.isEmpty

def firstAttr (entry : LdapEntry) (attr : JsString) : Option JsString := (allAttr entry attr).head?

def mapEntry (cfg : MappingConfig) (entry : LdapEntry) : MappedUser :=
  ⟨normalizeDn cm entry.dn,(given (firstAttr entry cfg.emailAttribute)).map cm.toLowerCase,firstAttr entry cfg.nameAttribute,
    (allAttr entry cfg.memberAttribute).map (normalizeDn cm)⟩

/-- What one search returns, with the ids of the accounts that the sync may create. -/
structure Search where
  entries : List LdapEntry
  expand : List JsString → List JsString
  newId : JsString → Nat

/-- `fetchDirectory`. -/
def Search.snapshot (cfg : MappingConfig) (search : Search) : Snapshot :=
  ⟨search.entries.map (mapEntry cm cfg),search.expand,search.newId⟩

/-- The tables, and the snapshot of the last sync where that has come to its end. -/
structure SyncState where
  db : DirectoryDb
  last : Option Snapshot

def syncStep (d : Deployment) (cfg : MappingConfig) (row : DirectoryRow) (s : SyncState) (search : Search) : Option SyncState :=
  let snapshot := search.snapshot d.cm cfg
  match (LdapService.applySnapshot d.cm row snapshot.expand snapshot.users snapshot.newId).run .database none s.db with
  | .ok (_,_,db) => some ⟨db,some snapshot⟩
  | .error (_,db) => some ⟨db,none⟩

variable (row : DirectoryRow) (db : DirectoryDb) (users : List MappedUser)

def DirectoryDb.mailOwner (user : MappedUser) : Option Nat := ((given user.email).bind db.val.accounts.userByEmail).map (·.id)

/-- An entry maps to an account by its linked DN or by e-mail. -/
def MapsTo (user : MappedUser) (userId : Nat) : Prop :=
  db.linkOf (row.id,user.externalId) = some userId ∨ db.mailOwner user = some userId

/-- The accounts that entries map to are active, and those linked to the directory that no
entry maps to are suspended. -/
def SuspendsMissing : Prop :=
  (∀ user ∈ users, ∀ userId, MapsTo row db user userId → db.statusOf userId = some .active) ∧
  ∀ link ∈ db.val.ldapIdentities.rows, link.directoryId = row.id → (∀ user ∈ users, ¬MapsTo row db user link.userId) →
    db.statusOf link.userId = some .suspended

def firstMail (dn : JsString) : Option JsString := users.findSome? fun user => if user.externalId = dn then given user.email else none

/-- The account that the entries with a DN come to: the one it is linked to, or the owner of
their first e-mail. -/
def claimedBy (dn : JsString) : Option Nat :=
  (db.linkOf (row.id,dn)).or (((firstMail users dn).bind db.val.accounts.userByEmail).map (·.id))

/-- No entry maps to an account with a link from a DN that is not seen; and an account with the
e-mail of an entry is active, or the one that some seen DN comes to. -/
def LinksCurrent : Prop :=
  (∀ link ∈ db.val.ldapIdentities.rows, link.directoryId = row.id → link.externalId ∉ seenDns users →
    ∀ user ∈ users, ¬MapsTo row db user link.userId) ∧
  ∀ user ∈ users, ∀ userId ∈ db.mailOwner user, db.statusOf userId = some .active ∨
    ∃ dn ∈ seenDns users, claimedBy row db users dn = some userId

instance (user : MappedUser) (userId : Nat) : Decidable (MapsTo row db user userId) := inferInstanceAs (Decidable (_ ∨ _))

instance : Decidable (LinksCurrent row db users) :=
  inferInstanceAs (Decidable ((∀ link ∈ db.val.ldapIdentities.rows, link.directoryId = row.id → link.externalId ∉ seenDns users →
    ∀ user ∈ users, ¬MapsTo row db user link.userId) ∧ ∀ user ∈ users, ∀ userId ∈ db.mailOwner user,
    db.statusOf userId = some .active ∨ ∃ dn ∈ seenDns users, claimedBy row db users dn = some userId))

end Model

section Entries
variable {cm : CaseMapping} {row : DirectoryRow} {expand : List JsString → List JsString} {db db' : DirectoryDb} {user : MappedUser}
  {email : JsString} {newId : Nat}

/-- The transaction of an entry: the account it finds or creates is active then, and linked to its DN. -/
structure Applied (row : DirectoryRow) (user : MappedUser) (email : JsString) (target : Nat) (db db' : DirectoryDb) : Prop where
  found : db.linkOf (row.id,user.externalId) = some target ∨ db.linkOf (row.id,user.externalId) = none ∧
    ((db.val.accounts.userByEmail email).map (·.id) = some target ∨
      db.val.accounts.userByEmail email = none ∧ db.val.accounts.users.lookup target = none)
  link : ∀ dn, db'.linkOf (row.id,dn) = if dn = user.externalId then some target else db.linkOf (row.id,dn)
  others : ∀ k, k ≠ target → db'.val.accounts.users.lookup k = db.val.accounts.users.lookup k
  active : db'.statusOf target = some .active
  email : ∀ u ∈ db.val.accounts.users.lookup target, (db'.val.accounts.users.lookup target).map (·.email) = some u.email
  collation : db'.val.accounts.collation = db.val.accounts.collation

/-- The account that the transaction of an entry is about. -/
def findAccount (row : DirectoryRow) (user : MappedUser) (email : JsString) (newId : Nat) : Request (Nat × Bool) := do
  match ← query (.ldapLink row.id user.externalId) with
  | some userId => Pure.pure (userId,false)
  | none =>
    match ← query (.userByEmail email) with
    | some existing => Pure.pure (existing.id,false)
    | none =>
      query (.insertUser ⟨newId,email,user.name.getD [],none,none,false,.active⟩)
      Pure.pure (newId,true)

theorem findAccount_returns {found : Nat × Bool} (h : (findAccount row user email newId).Returns db found db') :
    (∀ k, db'.linkOf k = db.linkOf k) ∧ (∀ k, k ≠ found.1 → db'.val.accounts.users.lookup k = db.val.accounts.users.lookup k) ∧
    (db'.val.accounts.users.lookup found.1).isSome = true ∧
    (∀ u ∈ db.val.accounts.users.lookup found.1, db'.val.accounts.users.lookup found.1 = some u) ∧
    (db.linkOf (row.id,user.externalId) = some found.1 ∨ db.linkOf (row.id,user.externalId) = none ∧
      ((db.val.accounts.userByEmail email).map (·.id) = some found.1 ∨
        db.val.accounts.userByEmail email = none ∧ db.val.accounts.users.lookup found.1 = none)) := by
  obtain ⟨linked,mid,hread,hnext⟩ := returns_bind.mp h
  obtain ⟨rfl,hlink⟩ := returns_read rfl hread
  cases linked with
  | some userId =>
    obtain ⟨rfl,rfl⟩ := hnext
    obtain ⟨link,hlookup,rfl⟩ := Option.map_eq_some_iff.mp hlink
    have hexists := mid.property.2.2.2.2.2 link (Table.lookup_eq_some.mp hlookup).1
    exact ⟨fun _ => rfl,fun _ _ => rfl,hexists,fun _ hu => hu,.inl hlink⟩
  | none =>
    obtain ⟨existing,mid',hread,hnext⟩ := returns_bind.mp hnext
    obtain ⟨rfl,hexisting⟩ := returns_read rfl hread
    have howner : mid'.val.accounts.userByEmail email = existing := hexisting
    cases existing with
    | some u =>
      obtain ⟨rfl,rfl⟩ := hnext
      have hu := AccountDb.lookup_of_userByEmail howner
      exact ⟨fun _ => rfl,fun _ _ => rfl,by simp [hu],fun _ hu => hu,.inr ⟨hlink,.inl (by rw [howner]; rfl)⟩⟩
    | none =>
      obtain ⟨_,mid'',hinsert,rfl,rfl⟩ := returns_bind.mp hnext
      obtain ⟨happly,hval⟩ := RowWrite.account_apply (returns_write rfl hinsert)
      have husers := AccountWrite.users_apply happly
      have hfresh := AccountWrite.insertUser_fresh happly
      refine ⟨fun k => by rw [DirectoryDb.linkOf,hval]; rfl,fun k hk => (husers k).trans (if_neg hk),?_,fun u hu => ?_,
        .inr ⟨hlink,.inr ⟨howner,hfresh⟩⟩⟩
      · rw [husers,AccountWrite.userAfter,if_pos rfl]
        rfl
      · rw [hfresh] at hu
        simp at hu

theorem applyUser_returns {created : Bool} (h : (LdapService.applyUser cm row expand user email newId).Returns db created db') :
    ∃ target, Applied row user email target db db' := by
  have hcollation := returns_collation h
  obtain ⟨found,db₁,hfind,hnext⟩ := returns_bind.mp (returns_tx.mp h)
  obtain ⟨hlinks,hothers,hexists,hkept,hfound⟩ := findAccount_returns hfind
  obtain ⟨_,db₂,hactivate,hnext⟩ := returns_bind.mp hnext
  obtain ⟨_,db₃,hmember,hnext⟩ := returns_bind.mp hnext
  obtain ⟨_,db₄,hlink,-,rfl⟩ := returns_bind.mp hnext
  obtain ⟨hactive,hval₂⟩ := RowWrite.account_apply (returns_write rfl hactivate)
  obtain ⟨hupsert,hval₃⟩ := RowWrite.account_apply (returns_write rfl hmember)
  obtain ⟨haccounts,hlinked⟩ := linkOf_upsertLdapIdentity (returns_write rfl hlink)
  have husers : ∀ k, db₄.val.accounts.users.lookup k = (db₁.val.accounts.users.lookup k).map fun u => if u.id == found.1 then
      u.updated (if (user.name.getD []).isEmpty then none else some (user.name.getD [])) (some .active) else u := by
    intro k
    rw [haccounts,AccountWrite.users_apply hupsert]
    exact AccountWrite.users_apply hactive k
  refine ⟨found.1,hfound,fun dn => ?_,fun k hk => ?_,?_,fun u hu => ?_,hcollation⟩
  · rw [hlinked,DirectoryDb.linkOf,hval₃,DirectoryTables.withAccounts,hval₂,← hlinks]
    rfl
  · rw [husers,hothers k hk]
    cases hold : db.val.accounts.users.lookup k with
    | none => rfl
    | some u =>
      obtain rfl := Table.key_of_lookup hold
      rw [Option.map_some,if_neg (by simpa using hk)]
  · obtain ⟨u,hu⟩ := Option.isSome_iff_exists.mp hexists
    rw [DirectoryDb.statusOf,husers,hu,Option.map_some,if_pos (by simpa using Table.key_of_lookup hu)]
    rfl
  · rw [husers,hkept u hu,Option.map_some,if_pos (by simpa using Table.key_of_lookup hu)]
    rfl

end Entries

section Passes
variable {cm : CaseMapping} {row : DirectoryRow} {expand : List JsString → List JsString} {start db db' : DirectoryDb} {user : MappedUser}
  {email : JsString} {done : List MappedUser} {target : Nat} {userId : Nat}

/-- After the entries `done`: accounts keep their e-mails, and those that are new or were active
are active; links are those there were and those to the accounts that the DNs come to. -/
structure Synced (row : DirectoryRow) (start : DirectoryDb) (done : List MappedUser) (db : DirectoryDb) : Prop where
  emails : ∀ u ∈ start.val.accounts.users.rows, (db.val.accounts.users.lookup u.id).map (·.email) = some u.email
  active : ∀ userId, start.statusOf userId = some .active → db.statusOf userId = some .active
  fresh : ∀ userId, start.val.accounts.users.lookup userId = none → (db.val.accounts.users.lookup userId).isSome = true →
    db.statusOf userId = some .active
  kept : ∀ dn userId, start.linkOf (row.id,dn) = some userId → db.linkOf (row.id,dn) = some userId
  links : ∀ dn userId, db.linkOf (row.id,dn) = some userId → claimedBy row start done dn = some userId ∨
    claimedBy row start done dn = none ∧ dn ∈ seenDns done ∧ start.val.accounts.users.lookup userId = none
  named : ∀ dn ∈ seenDns done, ∃ userId, db.linkOf (row.id,dn) = some userId ∧ db.statusOf userId = some .active
  collation : db.val.accounts.collation = start.val.accounts.collation

theorem Synced.refl (row : DirectoryRow) (db : DirectoryDb) : Synced row db [] db := by
  refine ⟨fun u hu => ?_,fun _ h => h,fun userId hnone hsome => ?_,fun _ _ h => h,fun dn userId h => .inl ?_,by simp [seenDns],rfl⟩
  · rw [Table.lookup_of_mem hu]
    rfl
  · simp [hnone] at hsome
  · rw [claimedBy,h]
    rfl

/-- The owner of an address is the one it had at the start, or new. -/
theorem Synced.owner (h : Synced row start done db) (email : JsString) :
    ((start.val.accounts.userByEmail email).map (·.id) = (db.val.accounts.userByEmail email).map (·.id)) ∨
    start.val.accounts.userByEmail email = none ∧ ∀ u ∈ db.val.accounts.userByEmail email,
    start.val.accounts.users.lookup u.id = none := by
  have hkept : ∀ u, start.val.accounts.userByEmail email = some u → (db.val.accounts.userByEmail email).map (·.id) = some u.id := by
    intro u hu
    obtain ⟨hmem,hemail⟩ := AccountDb.userByEmail_eq_some.mp hu
    obtain ⟨u',hu',hsame⟩ := Option.map_eq_some_iff.mp (h.emails u hmem)
    obtain ⟨hmem',hid⟩ := Table.lookup_eq_some.mp hu'
    rw [AccountDb.lower,← h.collation] at hemail
    rw [AccountDb.userByEmail_eq_some.mpr ⟨hmem',hsame ▸ hemail⟩]
    exact congrArg some hid
  cases hstart : start.val.accounts.userByEmail email with
  | some u => exact .inl (hkept u hstart).symm
  | none =>
    refine .inr ⟨rfl,fun u hu => ?_⟩
    -- an account that was there at the start had its e-mail then
    cases hold : start.val.accounts.users.lookup u.id with
    | none => rfl
    | some old =>
      obtain ⟨hmem,hemail⟩ := AccountDb.userByEmail_eq_some.mp hu
      obtain ⟨hold',hid⟩ := Table.lookup_eq_some.mp hold
      have hsame := h.emails old hold'
      rw [hid,Table.lookup_of_mem hmem,Option.map_some] at hsame
      rw [AccountDb.lower,h.collation] at hemail
      have hfound := AccountDb.userByEmail_eq_some.mpr ⟨hold',(Option.some.inj hsame) ▸ hemail⟩
      simp [hstart] at hfound

theorem mem_seenDns {users : List MappedUser} {dn : JsString} : dn ∈ seenDns users ↔ (firstMail users dn).isSome = true := by
  rw [firstMail,List.findSome?_isSome_iff]
  constructor
  · intro h
    obtain ⟨user,huser,rfl⟩ := List.mem_map.mp h
    obtain ⟨hmem,hemail⟩ := List.mem_filter.mp huser
    exact ⟨user,hmem,by rw [if_pos rfl]; exact hemail⟩
  · rintro ⟨user,hmem,hmail⟩
    split at hmail
    · rename_i hdn
      exact List.mem_map.mpr ⟨user,List.mem_filter.mpr ⟨hmem,hmail⟩,hdn⟩
    · simp at hmail

theorem firstMail_append (done : List MappedUser) (user : MappedUser) (dn : JsString) :
    firstMail (done ++ [user]) dn = (firstMail done dn).or (if user.externalId = dn then given user.email else none) := by
  rw [firstMail,List.findSome?_append,List.findSome?_singleton]
  rfl

/-- The first entry that says something about a DN is the one that counts. -/
theorem claimedBy_append {dn : JsString} (h : dn ∈ seenDns done ∨ (if user.externalId = dn then given user.email else none) = none) :
    claimedBy row start (done ++ [user]) dn = claimedBy row start done dn := by
  rw [claimedBy,firstMail_append]
  rcases h with h | h
  · obtain ⟨mail,hmail⟩ := Option.isSome_iff_exists.mp (mem_seenDns.mp h)
    rw [claimedBy,hmail,Option.some_or]
  · rw [h,Option.or_none]
    rfl

theorem Synced.absent (h : Synced row start done db) (hnone : db.val.accounts.users.lookup userId = none) :
    start.val.accounts.users.lookup userId = none := by
  cases hold : start.val.accounts.users.lookup userId with
  | none => rfl
  | some u =>
    obtain ⟨hmem,hid⟩ := Table.lookup_eq_some.mp hold
    have hkept := h.emails u hmem
    simp [hid,hnone] at hkept

/-- An entry without an e-mail is passed over. -/
theorem Synced.skip (h : Synced row start done db) (hemail : given user.email = none) : Synced row start (done ++ [user]) db := by
  have hclaimed : ∀ dn, claimedBy row start (done ++ [user]) dn = claimedBy row start done dn := by
    intro dn
    refine claimedBy_append (.inr ?_)
    rw [hemail,ite_self]
  have hseen : seenDns (done ++ [user]) = seenDns done := by simp [seenDns,hemail]
  refine ⟨h.emails,h.active,h.fresh,h.kept,?_,?_,h.collation⟩
  · rw [hseen]
    simpa only [hclaimed] using h.links
  · rw [hseen]
    exact h.named

theorem Applied.status (h : Applied row user email target db db') (hactive : db.statusOf userId = some .active) :
    db'.statusOf userId = some .active := by
  by_cases hsame : userId = target
  · rw [hsame]
    exact h.active
  · rw [DirectoryDb.statusOf,h.others userId hsame]
    exact hactive

/-- What an entry is linked to is what its DN comes to. -/
theorem Synced.claim (h : Synced row start done db) (hemail : given user.email = some email)
    (happlied : Applied row user email target db db') :
    claimedBy row start (done ++ [user]) user.externalId = some target ∨
    claimedBy row start (done ++ [user]) user.externalId = none ∧ start.val.accounts.users.lookup target = none := by
  by_cases hseen : user.externalId ∈ seenDns done
  · -- an entry before has linked the DN
    rw [claimedBy_append (.inl hseen)]
    obtain ⟨userId,hlink,-⟩ := h.named _ hseen
    rcases happlied.found with hfound | ⟨hnone,-⟩
    · rcases h.links _ _ hfound with hclaimed | ⟨hclaimed,-,hfresh⟩
      · exact .inl hclaimed
      · exact .inr ⟨hclaimed,hfresh⟩
    · simp [hlink] at hnone
  · have hfirst : firstMail done user.externalId = none := by
      rw [mem_seenDns] at hseen
      simpa using hseen
    have hclaimed : claimedBy row start (done ++ [user]) user.externalId =
        (start.linkOf (row.id,user.externalId)).or ((start.val.accounts.userByEmail email).map (·.id)) := by
      rw [claimedBy,firstMail_append,hfirst,if_pos rfl,hemail]
      rfl
    rw [hclaimed]
    rcases happlied.found with hfound | ⟨hnone,howner⟩
    · rcases h.links _ _ hfound with hold | ⟨-,hdone,-⟩
      · rw [claimedBy,hfirst,Option.bind_none,Option.map_none,Option.or_none] at hold
        rw [hold]
        exact .inl rfl
      · exact absurd hdone hseen
    · have hstart : start.linkOf (row.id,user.externalId) = none := by
        cases hlink : start.linkOf (row.id,user.externalId) with
        | none => rfl
        | some userId => simp [h.kept _ _ hlink] at hnone
      rw [hstart,Option.none_or]
      rcases h.owner email with hsame | ⟨hold,hnew⟩
      · rw [hsame]
        rcases howner with howner | ⟨howner,hfresh⟩
        · exact .inl howner
        · exact .inr ⟨by rw [howner]; rfl,h.absent hfresh⟩
      · rw [hold]
        refine .inr ⟨rfl,?_⟩
        rcases howner with howner | ⟨-,hfresh⟩
        · obtain ⟨u,hu,rfl⟩ := Option.map_eq_some_iff.mp howner
          exact hnew u hu
        · exact h.absent hfresh

theorem seenDns_append (hemail : given user.email = some email) : seenDns (done ++ [user]) = seenDns done ++ [user.externalId] := by
  simp [seenDns,hemail]

/-- After an entry, a DN is linked to what it comes to, or to a new account. -/
theorem Synced.links_apply (h : Synced row start done db) (hemail : given user.email = some email)
    (happlied : Applied row user email target db db') (dn : JsString) (userId : Nat) (hlink : db'.linkOf (row.id,dn) = some userId) :
    claimedBy row start (done ++ [user]) dn = some userId ∨ claimedBy row start (done ++ [user]) dn = none ∧
      dn ∈ seenDns (done ++ [user]) ∧ start.val.accounts.users.lookup userId = none := by
  rw [happlied.link] at hlink
  split at hlink
  · rename_i hdn
    cases hlink
    rw [hdn]
    rcases h.claim hemail happlied with hclaimed | ⟨hclaimed,hfresh⟩
    · exact .inl hclaimed
    · exact .inr ⟨hclaimed,by simp [seenDns_append hemail],hfresh⟩
  · rename_i hdn
    rw [claimedBy_append (.inr (if_neg (Ne.symm hdn))),seenDns_append hemail]
    rcases h.links dn userId hlink with hclaimed | ⟨hclaimed,hdone,hfresh⟩
    · exact .inl hclaimed
    · exact .inr ⟨hclaimed,List.mem_append_left _ hdone,hfresh⟩

theorem Synced.apply (h : Synced row start done db) (hemail : given user.email = some email)
    (happlied : Applied row user email target db db') : Synced row start (done ++ [user]) db' := by
  refine ⟨fun u hu => ?_,fun userId hactive => happlied.status (h.active userId hactive),fun userId hnone hsome => ?_,
    fun dn userId hlink => ?_,h.links_apply hemail happlied,fun dn hdn => ?_,happlied.collation.trans h.collation⟩
  · by_cases hsame : u.id = target
    · obtain ⟨u',hu',hkept⟩ := Option.map_eq_some_iff.mp (h.emails u hu)
      rw [hsame] at hu' ⊢
      rw [happlied.email u' hu',hkept]
    · rw [happlied.others u.id hsame]
      exact h.emails u hu
  · by_cases hsame : userId = target
    · rw [hsame]
      exact happlied.active
    · rw [happlied.others userId hsame] at hsome
      exact happlied.status (h.fresh userId hnone hsome)
  · have hold := h.kept dn userId hlink
    rw [happlied.link]
    split
    · rename_i hdn
      rw [hdn] at hold
      rcases happlied.found with hfound | ⟨hnone,-⟩
      · rw [← hfound,hold]
      · simp [hold] at hnone
    · exact hold
  · rw [happlied.link]
    split
    · exact ⟨target,rfl,happlied.active⟩
    · rename_i hdn'
      have hdone : dn ∈ seenDns done := by
        rw [seenDns_append hemail] at hdn
        simpa [hdn'] using hdn
      obtain ⟨userId,hlink,hactive⟩ := h.named dn hdone
      exact ⟨userId,hlink,happlied.status hactive⟩

theorem applyUsers_synced {users : List MappedUser} {newId : JsString → Nat} {counts counts' : SyncCounts} (h : Synced row start done db)
    (hreturns : (LdapService.applyUsers cm row expand newId counts users).Returns db counts' db') :
    Synced row start (done ++ users) db' := by
  induction users generalizing done db counts with
  | nil =>
    obtain ⟨-,rfl⟩ := hreturns
    rw [List.append_nil]
    exact h
  | cons user rest ih =>
    rw [List.append_cons]
    rw [LdapService.applyUsers] at hreturns
    split at hreturns
    · rename_i hemail
      exact ih (h.skip hemail) hreturns
    · rename_i email hemail
      obtain ⟨created,mid,happly,hrest⟩ := returns_bind.mp hreturns
      obtain ⟨target,happlied⟩ := applyUser_returns happly
      exact ih (h.apply hemail happlied) hrest

/-- `UPDATE users SET status = 'suspended' WHERE id = $1 AND status <> 'suspended'`. -/
theorem suspendActive_returns {changed : Bool} (h : (query (.suspendActive userId)).Returns db changed db') :
    db'.val.ldapIdentities = db.val.ldapIdentities ∧ ∀ k, db'.val.accounts.users.lookup k =
      (db.val.accounts.users.lookup k).map fun u => if u.id = userId then u.updated none (some .suspended) else u := by
  obtain ⟨hland,-⟩ := returns_query.mp h
  change directoryDatabase.land db (Sql.eval db.val (.suspendActive userId)).2 = some db' at hland
  rw [Sql.eval] at hland
  split at hland
  · obtain ⟨happly,hval⟩ := RowWrite.account_apply (land_one hland)
    refine ⟨by rw [hval]; rfl,fun k => ?_⟩
    rw [AccountWrite.users_apply happly]
    simp [AccountWrite.userAfter]
  · rename_i hsuspended
    obtain rfl := land_nil hland
    refine ⟨rfl,fun k => ?_⟩
    cases hu : db'.val.accounts.users.lookup k with
    | none => rfl
    | some u =>
      rw [Option.map_some]
      split
      · rename_i hid
        -- it was suspended
        rw [← hid,Table.key_of_lookup hu,hu] at hsuspended
        have hstatus : u.status = .suspended := by simpa using hsuspended
        rw [UserRow.updated,Option.getD_none,Option.getD_some,← hstatus]
      · rfl

/-- The accounts behind links from DNs that are not seen are suspended. -/
theorem deactivate_returns {seen : List JsString} {stale : List LdapIdentityRow} {counts counts' : SyncCounts}
    (h : (LdapService.deactivate seen counts stale).Returns db counts' db') :
    db'.val.ldapIdentities = db.val.ldapIdentities ∧ ∀ k, db'.val.accounts.users.lookup k = (db.val.accounts.users.lookup k).map fun u =>
      if ∃ link ∈ stale, link.externalId ∉ seen ∧ link.userId = u.id then u.updated none (some .suspended) else u := by
  induction stale generalizing db counts with
  | nil =>
    obtain ⟨-,rfl⟩ := h
    simp
  | cons link rest ih =>
    rw [LdapService.deactivate] at h
    split at h
    · rename_i hseen
      obtain ⟨hlinks,husers⟩ := ih h
      refine ⟨hlinks,fun k => ?_⟩
      rw [husers]
      have hin : link.externalId ∈ seen := by simpa using hseen
      simp [hin]
    · rename_i hseen
      obtain ⟨changed,mid,hsuspend,hrest⟩ := returns_bind.mp h
      obtain ⟨hlinks,husers⟩ := ih hrest
      obtain ⟨hlinks',husers'⟩ := suspendActive_returns hsuspend
      refine ⟨hlinks.trans hlinks',fun k => ?_⟩
      have hnot : link.externalId ∉ seen := by simpa using hseen
      rw [husers,husers',Option.map_map]
      congr 1
      funext u
      rw [Function.comp_apply]
      by_cases hid : u.id = link.userId
      · have hstale : ∃ l ∈ link :: rest, l.externalId ∉ seen ∧ l.userId = u.id := ⟨link,List.mem_cons_self,hnot,hid.symm⟩
        rw [if_pos hid,if_pos hstale]
        split
        · rfl
        · rfl
      · have hstale : (∃ l ∈ link :: rest, l.externalId ∉ seen ∧ l.userId = u.id) ↔ ∃ l ∈ rest, l.externalId ∉ seen ∧ l.userId = u.id := by
          simp [Ne.symm hid]
        rw [if_neg hid]
        simp only [hstale]

end Passes

section Runs
variable {d : Deployment} {cfg : MappingConfig} {row : DirectoryRow} {db db' : DirectoryDb} {users : List MappedUser}
variable {userId : Nat} {user : MappedUser} {dn : JsString}

/-- The second pass: the accounts with a link from a DN that is not seen are suspended, the others
stay as they are. -/
structure Deactivated (row : DirectoryRow) (seen : List JsString) (db db' : DirectoryDb) : Prop where
  links : db'.val.ldapIdentities = db.val.ldapIdentities
  emails : ∀ k, (db'.val.accounts.users.lookup k).map (·.email) = (db.val.accounts.users.lookup k).map (·.email)
  stale : ∀ dn userId, dn ∉ seen → db.linkOf (row.id,dn) = some userId → db'.statusOf userId = some .suspended
  others : ∀ userId, (∀ dn, dn ∉ seen → db.linkOf (row.id,dn) ≠ some userId) → db'.statusOf userId = db.statusOf userId
  collation : db'.val.accounts.collation = db.val.accounts.collation

theorem linkOf_of_mem {link : LdapIdentityRow} (h : link ∈ db.val.ldapIdentities.rows) :
    db.linkOf (link.directoryId,link.externalId) = some link.userId := by
  rw [DirectoryDb.linkOf,show (link.directoryId,link.externalId) = link.key from rfl,Table.lookup_of_mem h]
  rfl

theorem linked_account {k : Nat × JsString} (h : db.linkOf k = some userId) :
    ∃ u, db.val.accounts.users.lookup userId = some u := by
  obtain ⟨link,hlink,rfl⟩ := Option.map_eq_some_iff.mp h
  exact Option.isSome_iff_exists.mp (db.property.2.2.2.2.2 link (Table.lookup_eq_some.mp hlink).1)

theorem deactivated_of_returns {seen : List JsString} {counts counts' : SyncCounts}
    (h : (LdapService.deactivate seen counts (db.val.ldapIdentities.rows.filter (·.directoryId == row.id))).Returns db counts' db') :
    Deactivated row seen db db' := by
  obtain ⟨hlinks,husers⟩ := deactivate_returns h
  refine ⟨hlinks,fun k => ?_,fun dn userId hdn hlink => ?_,fun userId hnone => ?_,returns_collation h⟩
  · rw [husers,Option.map_map]
    congr 1
    funext u
    rw [Function.comp_apply]
    split
    · rfl
    · rfl
  · obtain ⟨u,hu⟩ := linked_account hlink
    obtain ⟨link,hlookup,rfl⟩ := Option.map_eq_some_iff.mp hlink
    obtain ⟨hmem,hkey⟩ := Table.lookup_eq_some.mp hlookup
    obtain ⟨hdirectory,rfl⟩ := Prod.mk.inj hkey
    have hstale : ∃ l ∈ db.val.ldapIdentities.rows.filter (·.directoryId == row.id), l.externalId ∉ seen ∧ l.userId = u.id :=
      ⟨link,List.mem_filter.mpr ⟨hmem,by simp [hdirectory]⟩,hdn,(Table.key_of_lookup hu).symm⟩
    rw [DirectoryDb.statusOf,husers,hu,Option.map_some,if_pos hstale]
    rfl
  · rw [DirectoryDb.statusOf,husers]
    cases hu : db.val.accounts.users.lookup userId with
    | none => simp [DirectoryDb.statusOf,hu]
    | some u =>
      rw [Option.map_some,if_neg,DirectoryDb.statusOf,hu]
      rintro ⟨link,hlink,hdn,hid⟩
      obtain ⟨hmem,hdirectory⟩ := List.mem_filter.mp hlink
      refine hnone link.externalId hdn ?_
      rw [← eq_of_beq hdirectory,linkOf_of_mem hmem,hid,Table.key_of_lookup hu]

theorem applySnapshot_returns {expand : List JsString → List JsString} {newId : JsString → Nat} {counts : SyncCounts}
    (hdeactivate : row.deactivateMissing = true)
    (h : (LdapService.applySnapshot d.cm row expand users newId).Returns db counts db') :
    ∃ mid, Synced row db users mid ∧ Deactivated row (seenDns users) mid db' := by
  obtain ⟨counts',mid,happly,hnext⟩ := returns_bind.mp h
  have hsynced := applyUsers_synced (Synced.refl row db) happly
  rw [if_pos hdeactivate] at hnext
  obtain ⟨stale,mid',hread,hnext⟩ := returns_bind.mp hnext
  obtain ⟨rfl,rfl⟩ := returns_read rfl hread
  exact ⟨mid',hsynced,deactivated_of_returns hnext⟩

variable {mid : DirectoryDb}

theorem Synced.stale_link (h : Synced row db users mid) (hdn : dn ∉ seenDns users)
    (hlink : mid.linkOf (row.id,dn) = some userId) : db.linkOf (row.id,dn) = some userId := by
  rcases h.links dn userId hlink with hclaimed | ⟨-,hseen,-⟩
  · have hfirst : firstMail users dn = none := by
      rw [mem_seenDns] at hdn
      simpa using hdn
    rwa [claimedBy,hfirst,Option.bind_none,Option.map_none,Option.or_none] at hclaimed
  · exact absurd hseen hdn

theorem mapsTo_of_claimedBy (hdn : ∃ user ∈ users, user.externalId = dn)
    (h : claimedBy row db users dn = some userId) : ∃ user ∈ users, MapsTo row db user userId := by
  rw [claimedBy,Option.or_eq_some_iff] at h
  rcases h with hlink | ⟨-,howner⟩
  · obtain ⟨user,huser,rfl⟩ := hdn
    exact ⟨user,huser,.inl hlink⟩
  · obtain ⟨u,hu,rfl⟩ := Option.map_eq_some_iff.mp howner
    obtain ⟨mail,hmail,hu⟩ := Option.bind_eq_some_iff.mp hu
    obtain ⟨user,huser,hgiven⟩ := List.exists_of_findSome?_eq_some hmail
    split at hgiven
    · exact ⟨user,huser,.inr (by rw [DirectoryDb.mailOwner,hgiven,Option.bind_some,hu]; rfl)⟩
    · simp at hgiven

theorem Synced.mailOwner (h : Synced row db users mid) (howner : mid.mailOwner user = some userId) :
    db.mailOwner user = some userId ∨ db.val.accounts.users.lookup userId = none := by
  obtain ⟨u,hu,rfl⟩ := Option.map_eq_some_iff.mp howner
  obtain ⟨email,hemail,hu⟩ := Option.bind_eq_some_iff.mp hu
  rcases h.owner email with hsame | ⟨-,hnew⟩
  · refine .inl ?_
    rw [DirectoryDb.mailOwner,hemail,Option.bind_some,hsame,hu]
    rfl
  · exact .inr (hnew u hu)

/-- An account that an entry maps to after the first pass is one that an entry mapped to before
it, or new. -/
theorem Synced.mapsTo (h : Synced row db users mid) (huser : user ∈ users) (hmaps : MapsTo row mid user userId) :
    (∃ user ∈ users, MapsTo row db user userId) ∨ db.val.accounts.users.lookup userId = none := by
  rcases hmaps with hlink | howner
  · rcases h.links _ _ hlink with hclaimed | ⟨-,-,hfresh⟩
    · exact .inl (mapsTo_of_claimedBy ⟨user,huser,rfl⟩ hclaimed)
    · exact .inr hfresh
  · rcases h.mailOwner howner with hold | hfresh
    · exact .inl ⟨user,huser,.inr hold⟩
    · exact .inr hfresh

theorem LinksCurrent.stale (h : LinksCurrent row db users) (hdn : dn ∉ seenDns users)
    (hlink : db.linkOf (row.id,dn) = some userId) (huser : user ∈ users) : ¬MapsTo row db user userId := by
  obtain ⟨link,hlookup,rfl⟩ := Option.map_eq_some_iff.mp hlink
  obtain ⟨hmem,hkey⟩ := Table.lookup_eq_some.mp hlookup
  obtain ⟨hdirectory,rfl⟩ := Prod.mk.inj hkey
  exact h.1 link hmem hdirectory hdn user huser

theorem Synced.mapped_active (h : Synced row db users mid) (hcurrent : LinksCurrent row db users)
    (huser : user ∈ users) (hmaps : MapsTo row mid user userId) : mid.statusOf userId = some .active := by
  rcases hmaps with hlink | howner
  · by_cases hseen : user.externalId ∈ seenDns users
    · obtain ⟨named,hnamed,hactive⟩ := h.named _ hseen
      rw [Option.some.inj (hlink.symm.trans hnamed)]
      exact hactive
    · have hold := h.stale_link hseen hlink
      exact absurd (.inl hold) (hcurrent.stale hseen hold huser)
  · rcases h.mailOwner howner with hold | hfresh
    · rcases hcurrent.2 user huser userId hold with hactive | ⟨dn,hdn,hclaimed⟩
      · exact h.active userId hactive
      · obtain ⟨named,hnamed,hactive⟩ := h.named dn hdn
        rcases h.links dn named hnamed with hclaimed' | ⟨hnone,-,-⟩
        · rw [Option.some.inj (hclaimed.symm.trans hclaimed')]
          exact hactive
        · simp [hclaimed] at hnone
    · obtain ⟨u,hu,rfl⟩ := Option.map_eq_some_iff.mp howner
      obtain ⟨email,-,hu⟩ := Option.bind_eq_some_iff.mp hu
      exact h.fresh u.id hfresh (by simp [AccountDb.lookup_of_userByEmail hu])

theorem Deactivated.mapsTo {seen : List JsString} (h : Deactivated row seen mid db')
    (hmaps : MapsTo row db' user userId) : MapsTo row mid user userId := by
  rcases hmaps with hlink | howner
  · rw [DirectoryDb.linkOf,h.links] at hlink
    exact .inl hlink
  · obtain ⟨u,hu,rfl⟩ := Option.map_eq_some_iff.mp howner
    obtain ⟨email,hemail,hu⟩ := Option.bind_eq_some_iff.mp hu
    obtain ⟨hmem,hmail⟩ := AccountDb.userByEmail_eq_some.mp hu
    have hsame := h.emails u.id
    rw [Table.lookup_of_mem hmem,Option.map_some] at hsame
    obtain ⟨u',hu',hmail'⟩ := Option.map_eq_some_iff.mp hsame.symm
    obtain ⟨hmem',hid⟩ := Table.lookup_eq_some.mp hu'
    rw [AccountDb.lower,h.collation] at hmail
    refine .inr ?_
    rw [DirectoryDb.mailOwner,hemail,Option.bind_some,AccountDb.userByEmail_eq_some.mpr ⟨hmem',hmail' ▸ hmail⟩]
    exact congrArg some hid

theorem suspendsMissing_sync {expand : List JsString → List JsString} {newId : JsString → Nat} {counts : SyncCounts}
    (hdeactivate : row.deactivateMissing = true) (hcurrent : LinksCurrent row db users)
    (h : (LdapService.applySnapshot d.cm row expand users newId).Returns db counts db') : SuspendsMissing row db' users := by
  obtain ⟨mid,hsynced,hdeactivated⟩ := applySnapshot_returns hdeactivate h
  constructor
  · intro user huser userId hmaps
    have hmid := hdeactivated.mapsTo hmaps
    rw [hdeactivated.others userId]
    · exact hsynced.mapped_active hcurrent huser hmid
    · intro dn hdn hlink
      have hold := hsynced.stale_link hdn hlink
      rcases hsynced.mapsTo huser hmid with ⟨user',huser',hmaps'⟩ | hfresh
      · exact hcurrent.stale hdn hold huser' hmaps'
      · obtain ⟨u,hu⟩ := linked_account hold
        simp [hfresh] at hu
  · intro link hlink hdirectory hnone
    have hlinked := linkOf_of_mem hlink
    rw [hdirectory] at hlinked
    refine hdeactivated.stale link.externalId link.userId (fun hseen => ?_) ?_
    · obtain ⟨user,huser,hdn⟩ := List.mem_map.mp hseen
      refine hnone user (List.mem_filter.mp huser).1 (.inl ?_)
      rw [hdn]
      exact hlinked
    · rw [DirectoryDb.linkOf,← hdeactivated.links]
      exact hlinked

/-- In every run of syncs whose links are current, each sync that ends has suspended exactly the
accounts that are missing. -/
theorem sync_suspends_missing (hdeactivate : row.deactivateMissing = true) {s : SyncState}
    (hrun : Run (syncStep d cfg row) (fun s search => LinksCurrent row s.db (search.snapshot d.cm cfg).users) ⟨db,none⟩ s) :
    ∀ snapshot ∈ s.last, SuspendsMissing row s.db snapshot.users := by
  have hstep : ∀ s search t, (∀ snapshot ∈ s.last, SuspendsMissing row s.db snapshot.users) →
      LinksCurrent row s.db (search.snapshot d.cm cfg).users → syncStep d cfg row s search = some t →
      ∀ snapshot ∈ t.last, SuspendsMissing row t.db snapshot.users := by
    intro s search t _ hcurrent hstep
    rw [syncStep] at hstep
    dsimp only at hstep
    split at hstep
    · rename_i counts saved db' hsync
      cases hstep
      intro snapshot hlast
      cases hlast
      exact suspendsMissing_sync hdeactivate hcurrent (returns_of_run hsync)
    · cases hstep
      simp
  exact hrun.invariant hstep (by simp)

def usualMapping : MappingConfig := ⟨js "mail",js "cn",js "memberOf"⟩

def personEntry (dn mail : String) : LdapEntry := ⟨js dn,fun attr => if attr = js "mail" then [js mail] else []⟩

def adasDirectory : DirectoryRow := ⟨1,1,[],.member,true⟩

/-- Accounts that a search leads to have the ids 9 and 10. -/
def searchOf (entries : List LdapEntry) : Search := ⟨entries,id,fun dn => if dn = js "cn=ada" then 9 else 10⟩

/-- Bob is missing from the second search. -/
theorem bob_suspended : ∃ s snapshot, Run (syncStep plainDeployment usualMapping adasDirectory)
    (fun s search => LinksCurrent adasDirectory s.db (search.snapshot asciiCase usualMapping).users) ⟨twoTenantsDb,none⟩ s ∧
    s.last = some snapshot ∧ s.db.statusOf 10 = some .suspended ∧ SuspendsMissing adasDirectory s.db snapshot.users := by
  have hactions : (runActions (syncStep plainDeployment usualMapping adasDirectory)
      (fun s search => LinksCurrent adasDirectory s.db (search.snapshot asciiCase usualMapping).users) ⟨twoTenantsDb,none⟩
      [searchOf [personEntry "cn=ada" "ada@e.f",personEntry "cn=bob" "bob@e.f"],searchOf [personEntry "cn=ada" "ada@e.f"]]).map
      (fun s => (s.last.isSome,s.db.statusOf 10)) = some (true,some .suspended) := by decide
  obtain ⟨s,hs,hbob⟩ := Option.map_eq_some_iff.mp hactions
  obtain ⟨hlast,hstatus⟩ := Prod.mk.inj hbob
  obtain ⟨snapshot,hsnapshot⟩ := Option.isSome_iff_exists.mp hlast
  have hrun := Run.of_actions hs
  exact ⟨s,snapshot,hrun,hsnapshot,hstatus,sync_suspends_missing rfl hrun snapshot hsnapshot⟩

/-- Her entry has a new DN and the mail it had. -/
theorem renamed_entry_suspended :
    ∃ s snapshot, Run (syncStep plainDeployment usualMapping adasDirectory) (fun _ _ => True) ⟨twoTenantsDb,none⟩ s ∧
    s.last = some snapshot ∧ ¬SuspendsMissing adasDirectory s.db snapshot.users := by
  have hactions : (runActions (syncStep plainDeployment usualMapping adasDirectory) (fun _ _ => True) ⟨twoTenantsDb,none⟩
      [searchOf [personEntry "cn=ada" "ada@e.f"],searchOf [personEntry "cn=ada lovelace" "ada@e.f"]]).map
      (fun s => (s.last.any fun snapshot => snapshot.users.any fun user => MapsTo adasDirectory s.db user 9,s.db.statusOf 9)) =
      some (true,some .suspended) := by decide
  obtain ⟨s,hs,hada⟩ := Option.map_eq_some_iff.mp hactions
  obtain ⟨hmapped,hstatus⟩ := Prod.mk.inj hada
  cases hlast : s.last with
  | none => simp [hlast] at hmapped
  | some snapshot =>
    rw [hlast,Option.any_some] at hmapped
    obtain ⟨user,huser,hmaps⟩ := List.any_eq_true.mp hmapped
    refine ⟨s,snapshot,.of_actions hs,hlast,fun h => ?_⟩
    have hactive := h.1 user huser 9 (of_decide_eq_true hmaps)
    simp [hstatus] at hactive

end Runs
end JustMail.Accounts
