import JustMail.Accounts.OwnerGuard

/-! `guardLastOwner` in runs of many requests. Two services ask it before they write a role,
in a statement of its own; the invites, SCIM and the LDAP sync write roles without asking. -/
namespace JustMail.Accounts
open Foundation Postfix OrgsService

section Owners

def IsOwner (members : Table MemberRow.key) (k : Nat × Nat) : Prop := (members.lookup k).map (·.role) = some .owner

instance (members : Table MemberRow.key) (k : Nat × Nat) : Decidable (IsOwner members k) :=
  inferInstanceAs (Decidable (_ = _))

def HasOwner (db : DirectoryDb) (orgId : Nat) : Prop := ∃ userId, IsOwner db.members (orgId,userId)

variable {members : Table MemberRow.key} {orgId userId : Nat}

theorem isOwner_iff {k : Nat × Nat} : IsOwner members k ↔ ∃ m ∈ members.rows, m.key = k ∧ m.role = .owner := by
  rw [IsOwner,Option.map_eq_some_iff]
  simp only [Table.lookup_eq_some,and_assoc]

theorem hasOwner_iff {db : DirectoryDb} : HasOwner db orgId ↔ ∃ m ∈ db.members.rows, m.orgId = orgId ∧ m.role = .owner := by
  constructor
  · rintro ⟨userId,h⟩
    obtain ⟨m,hm,hkey,hrole⟩ := isOwner_iff.mp h
    exact ⟨m,hm,(Prod.mk.inj hkey).1,hrole⟩
  · rintro ⟨m,hm,rfl,hrole⟩
    exact ⟨m.userId,isOwner_iff.mpr ⟨m,hm,rfl,hrole⟩⟩

instance (db : DirectoryDb) (orgId : Nat) : Decidable (HasOwner db orgId) := decidable_of_iff _ hasOwner_iff.symm

/-- The user is no owner, or not the only one. -/
def Cleared (members : Table MemberRow.key) (orgId userId : Nat) : Prop :=
  IsOwner members (orgId,userId) → ∃ v, v ≠ userId ∧ IsOwner members (orgId,v)

theorem cleared_of_guard (h : refuses (lastOwnerRow members orgId userId) = false) : Cleared members orgId userId := by
  intro howner
  obtain ⟨m,hm,hkey,hrole⟩ := isOwner_iff.mp howner
  obtain ⟨horg,-⟩ := Prod.mk.inj hkey
  have hlookup : members.lookup (orgId,userId) = some m := Table.lookup_eq_some.mpr ⟨hm,hkey⟩
  have hcount : 1 < ownerCount members orgId := by simpa [refuses,lastOwnerRow,hlookup,hrole] using h
  rw [ownerCount,List.countP_eq_length_filter] at hcount
  have hmem : m ∈ members.rows.filter fun m => m.orgId == orgId && m.role == .owner :=
    List.mem_filter.mpr ⟨hm,by simp [horg,hrole]⟩
  have hnodup : (members.rows.filter fun m => m.orgId == orgId && m.role == .owner).Nodup :=
    (List.Nodup.of_map _ members.unique).filter _
  -- an owner's row besides the one of the user
  obtain ⟨n,hn⟩ := List.exists_mem_of_length_pos (by rw [List.length_erase_of_mem hmem]; omega)
  obtain ⟨hne,hn⟩ := hnodup.mem_erase_iff.mp hn
  obtain ⟨hn,howns⟩ := List.mem_filter.mp hn
  obtain ⟨hnorg,hnrole⟩ : n.orgId = orgId ∧ n.role = .owner := by simpa using howns
  have hnkey : n.key = (orgId,n.userId) := by rw [MemberRow.key,hnorg]
  refine ⟨n.userId,?_,isOwner_iff.mpr ⟨n,hn,hnkey,hnrole⟩⟩
  intro hsame
  exact hne (Table.eq_of_key hn hm (by rw [hnkey,hsame,hkey]))

end Owners

section Writes
variable {w : RowWrite}

/-- The member whom a row leaves without the owner role. -/
def AccountWrite.takenFrom : AccountWrite → Option (Nat × Nat)
  | .upsertMember m => if m.role = .owner then none else some m.key
  | .setMemberRole orgId userId role => if role = .owner then none else some (orgId,userId)
  | .deleteMember orgId userId => some (orgId,userId)
  | _ => none

/-- The member whom a row makes an owner. -/
def AccountWrite.grantedTo : AccountWrite → Option (Nat × Nat)
  | .upsertMember m | .insertMember m => if m.role = .owner then some m.key else none
  | .setMemberRole orgId userId role => if role = .owner then some (orgId,userId) else none
  | _ => none

def RowWrite.takenFrom : RowWrite → Option (Nat × Nat)
  | .account w => w.takenFrom
  | _ => none

def RowWrite.grantedTo : RowWrite → Option (Nat × Nat)
  | .account w => w.grantedTo
  | _ => none

/-- The role that a row leaves a member with. -/
def AccountWrite.roleAfter (k : Nat × Nat) (old : Option OrgRole) : AccountWrite → Option OrgRole
  | .upsertMember m => if k = m.key then some m.role else old
  | .insertMember m => if k = m.key then some (old.getD m.role) else old
  | .setMemberRole orgId userId role => if k = (orgId,userId) then old.map fun _ => role else old
  | .deleteMember orgId userId => if k = (orgId,userId) then none else old
  | _ => old

/-- What a row does to the roles. -/
theorem AccountWrite.roleOf_apply {db db' : AccountDb} {w : AccountWrite} (h : w.apply db = some db') (k : Nat × Nat) :
    db'.roleOf k = w.roleAfter k (db.roleOf k) := by
  cases w with
  | insertUser u =>
    rw [AccountDb.roleOf,(AccountDb.insertUser_spec h).2.2.2.1]
    rfl
  | updateUser userId name status =>
    rw [← Option.some.inj h]
    rfl
  | upsertMember m => exact AccountDb.roleOf_upsertMember h k
  | insertMember m => exact AccountDb.roleOf_insertMember h k
  | setMemberRole orgId userId role =>
    rw [← Option.some.inj h]
    exact db.roleOf_setMemberRole orgId userId role k
  | deleteMember orgId userId =>
    rw [← Option.some.inj h]
    exact db.roleOf_deleteMember orgId userId k
  | acceptInvite inviteId now =>
    rw [← Option.some.inj h]
    rfl
  | insertSession s =>
    rw [AccountWrite.apply,AccountDb.insertSession] at h
    split at h
    · rw [← Option.some.inj h]
      rfl
    · simp at h
  | insertIdentity i =>
    rw [AccountWrite.apply,AccountDb.insertIdentity] at h
    split at h
    · rw [← Option.some.inj h]
      rfl
    · simp at h

theorem AccountWrite.roleAfter_owner {w : AccountWrite} {k : Nat × Nat} (h : w.takenFrom ≠ some k) :
    w.roleAfter k (some .owner) = some .owner := by
  cases w <;> grind [AccountWrite.takenFrom,AccountWrite.roleAfter]

theorem AccountWrite.roleAfter_ne_owner {w : AccountWrite} {k : Nat × Nat} {old : Option OrgRole} (h : w.grantedTo ≠ some k)
    (hold : old ≠ some .owner) : w.roleAfter k old ≠ some .owner := by
  cases w <;> cases old <;> grind [AccountWrite.grantedTo,AccountWrite.roleAfter]

/-- Rows of the other tables leave the members alone. -/
theorem RowWrite.apply_cases {db db' : DirectoryDb} (h : w.apply db = some db') :
    (∃ v, w = .account v ∧ v.apply db.val.accounts = some db'.val.accounts) ∨
    w.takenFrom = none ∧ w.grantedTo = none ∧ db'.val.accounts = db.val.accounts := by
  rw [RowWrite.apply] at h
  obtain ⟨t,ht,hchecked⟩ := Option.bind_eq_some_iff.mp h
  obtain rfl : db'.val = t := by
    split at hchecked
    · rw [← Option.some.inj hchecked]
    · simp at hchecked
  cases w with
  | account v =>
    obtain ⟨accounts,happly,hsame⟩ := Option.map_eq_some_iff.mp ht
    exact .inl ⟨v,rfl,by rw [happly,← hsame]⟩
  | insertScimUser r =>
    obtain ⟨rows,-,hsame⟩ := Option.map_eq_some_iff.mp ht
    exact .inr ⟨rfl,rfl,by rw [← hsame]⟩
  | insertScimGroup r =>
    obtain ⟨rows,-,hsame⟩ := Option.map_eq_some_iff.mp ht
    exact .inr ⟨rfl,rfl,by rw [← hsame]⟩
  | _ => exact .inr ⟨rfl,rfl,by rw [← Option.some.inj ht]⟩

variable {db db' : DirectoryDb} {k : Nat × Nat}

theorem isOwner_stays (h : w.apply db = some db') (hnot : w.takenFrom ≠ some k) (hk : IsOwner db.members k) :
    IsOwner db'.members k := by
  rcases RowWrite.apply_cases h with ⟨v,rfl,hv⟩ | ⟨-,-,hsame⟩
  · have hrole : db.val.accounts.roleOf k = some .owner := hk
    have happly := AccountWrite.roleOf_apply hv k
    rw [hrole,AccountWrite.roleAfter_owner hnot] at happly
    exact happly
  · rw [DirectoryDb.members,hsame]
    exact hk

theorem not_isOwner_stays (h : w.apply db = some db') (hnot : w.grantedTo ≠ some k) (hk : ¬IsOwner db.members k) :
    ¬IsOwner db'.members k := by
  rcases RowWrite.apply_cases h with ⟨v,rfl,hv⟩ | ⟨-,-,hsame⟩
  · intro hk'
    have happly := AccountWrite.roleOf_apply hv k
    exact AccountWrite.roleAfter_ne_owner hnot hk (happly.symm.trans hk')
  · rw [DirectoryDb.members,hsame]
    exact hk

/-- `guardLastOwner` would let each of the rows pass where it lands. -/
def Unrefused (db : DirectoryDb) : List RowWrite → Prop
  | [] => True
  | w :: ws => (∀ k ∈ w.takenFrom, refuses (lastOwnerRow db.members k.1 k.2) = false) ∧ ∀ db' ∈ w.apply db, Unrefused db' ws

instance decidableUnrefused : (db : DirectoryDb) → (ws : List RowWrite) → Decidable (Unrefused db ws)
  | _, [] => inferInstanceAs (Decidable True)
  | db, w :: ws =>
    have (db' : DirectoryDb) : Decidable (Unrefused db' ws) := decidableUnrefused db' ws
    inferInstanceAs (Decidable (_ ∧ ∀ db' ∈ w.apply db, Unrefused db' ws))

/-- A row that finds its member cleared leaves the organisation an owner. -/
theorem hasOwner_write (h : w.apply db = some db') {orgId : Nat}
    (hcleared : ∀ userId, w.takenFrom = some (orgId,userId) → Cleared db.members orgId userId) (ho : HasOwner db orgId) :
    HasOwner db' orgId := by
  obtain ⟨u,hu⟩ := ho
  by_cases htaken : w.takenFrom = some (orgId,u)
  · obtain ⟨v,hne,hv⟩ := hcleared u htaken hu
    refine ⟨v,isOwner_stays h ?_ hv⟩
    rw [htaken]
    simpa using Ne.symm hne
  · exact ⟨u,isOwner_stays h htaken hu⟩

end Writes

section Landing
variable {db db' : DirectoryDb} {ws : List RowWrite} {k : Nat × Nat}

theorem isOwner_land (h : directoryDatabase.land db ws = some db') (hnot : ∀ w ∈ ws, w.takenFrom ≠ some k)
    (hk : IsOwner db.members k) : IsOwner db'.members k :=
  @Database.land_invariant directoryDatabase (fun db => IsOwner db.members k) _ _ _
    (fun w hw _ _ hdb hrow => isOwner_stays hrow (hnot w hw) hdb) h hk

theorem not_isOwner_land (h : directoryDatabase.land db ws = some db') (hnot : ∀ w ∈ ws, w.grantedTo ≠ some k)
    (hk : ¬IsOwner db.members k) : ¬IsOwner db'.members k :=
  @Database.land_invariant directoryDatabase (fun db => ¬IsOwner db.members k) _ _ _
    (fun w hw _ _ hdb hrow => not_isOwner_stays hrow (hnot w hw) hdb) h hk

theorem hasOwner_land (h : directoryDatabase.land db ws = some db') (hpass : Unrefused db ws) {orgId : Nat}
    (ho : HasOwner db orgId) : HasOwner db' orgId := by
  induction ws generalizing db with
  | nil =>
    cases h
    exact ho
  | cons w ws ih =>
    rw [Database.land_cons] at h
    obtain ⟨mid,hmid,h⟩ := Option.bind_eq_some_iff.mp h
    exact ih h (hpass.2 mid hmid) (hasOwner_write hmid (fun userId hw => cleared_of_guard (hpass.1 _ hw)) ho)

/-- The requests and their statements in any order; each call has a time of its own. -/
def directoryStep (d : Deployment) : Server directoryDatabase ApiError Unit → ServerAction (Nat × DirectoryCall) →
    Option (Server directoryDatabase ApiError Unit) :=
  Server.step (fun call => call.2.body d call.1) .database

/-- The member whose guard a request has passed, and whose row it writes next. -/
def pastGuard (c : Client directoryDatabase ApiError Unit) : Option (Nat × Nat) :=
  if c.buffer.isNone then due c.program else none

/-- A row after which the guard may answer otherwise for `k`: another owner of the
organisation loses the role, or `k` becomes an owner. -/
def RowWrite.Overtakes (members : Table MemberRow.key) (k : Nat × Nat) (w : RowWrite) : Prop :=
  w.grantedTo = some k ∨ ∃ v ∈ w.takenFrom, v.1 = k.1 ∧ v ≠ k ∧ IsOwner members v

instance (members : Table MemberRow.key) (k : Nat × Nat) (w : RowWrite) : Decidable (w.Overtakes members k) :=
  inferInstanceAs (Decidable (_ ∨ ∃ v ∈ w.takenFrom, v.1 = k.1 ∧ v ≠ k ∧ IsOwner members v))

/-- Rows that land without the guard are none that it would refuse, and no row overtakes a
request between its guard and its write. -/
def Undisturbed (s : Server directoryDatabase ApiError Unit) : ServerAction (Nat × DirectoryCall) → Prop
  | .call _ => True
  | .exec i => ∀ c ∈ s.clients[i]?, (pastGuard c = none → Unrefused s.db (c.landing s.db)) ∧
      ∀ c' ∈ s.clients.eraseIdx i, ∀ k ∈ pastGuard c', ∀ w ∈ c.landing s.db, ¬w.Overtakes s.db.members k

instance (s : Server directoryDatabase ApiError Unit) : (a : ServerAction (Nat × DirectoryCall)) → Decidable (Undisturbed s a)
  | .call _ => inferInstanceAs (Decidable True)
  | .exec i => inferInstanceAs (Decidable (∀ c ∈ s.clients[i]?, (pastGuard c = none → Unrefused s.db (c.landing s.db)) ∧
      ∀ c' ∈ s.clients.eraseIdx i, ∀ k ∈ pastGuard c', ∀ w ∈ c.landing s.db, ¬w.Overtakes s.db.members k))

/-- The guard that a request has passed would let it pass still. -/
def GuardsHold (s : Server directoryDatabase ApiError Unit) : Prop :=
  ∀ c ∈ s.clients, GuardsWrites c.program ∧ ∀ k ∈ pastGuard c, Cleared s.db.members k.1 k.2

variable {d : Deployment} {s t : Server directoryDatabase ApiError Unit} {a : ServerAction (Nat × DirectoryCall)}
  {c c' : Client directoryDatabase ApiError Unit} {db db' : DirectoryDb} {k : Nat × Nat}

theorem cleared_land {ws : List RowWrite} (h : directoryDatabase.land db ws = some db')
    (hnot : ∀ w ∈ ws, ¬w.Overtakes db.members k) (hk : Cleared db.members k.1 k.2) : Cleared db'.members k.1 k.2 := by
  intro howner
  have hgranted : ∀ w ∈ ws, w.grantedTo ≠ some k := fun w hw hgrant => hnot w hw (.inl hgrant)
  have hbefore : IsOwner db.members k := by
    by_contra hbefore
    exact not_isOwner_land h hgranted hbefore howner
  obtain ⟨v,hne,hv⟩ := hk hbefore
  refine ⟨v,hne,isOwner_land h (fun w hw htaken => ?_) hv⟩
  exact hnot w hw (.inr ⟨(k.1,v),htaken,rfl,fun hsame => hne (congrArg Prod.snd hsame),hv⟩)

/-- A write behind its guard is one row, and about the guarded member. -/
theorem eval_target {q : Sql} (h : q.target = some k) (t : DirectoryTables) :
    ∃ w, (q.eval t).2 = [w] ∧ ∀ v ∈ w.takenFrom, v = k := by
  cases q with
  | updateMemberRole orgId userId role =>
    refine ⟨.account (.setMemberRole orgId userId role),rfl,fun v hv => ?_⟩
    rw [RowWrite.takenFrom,AccountWrite.takenFrom] at hv
    split at hv
    · simp at hv
    · exact Option.some.inj (hv.symm.trans h)
  | deleteMember orgId userId =>
    exact ⟨.account (.deleteMember orgId userId),rfl,fun v hv => Option.some.inj (hv.symm.trans h)⟩
  | _ => simp [Sql.target] at h

theorem pastGuard_eq_some (h : pastGuard c = some k) :
    c.buffer = none ∧ ∃ q next, c.program = .stmt q next ∧ Sql.target q = some k := by
  rw [pastGuard] at h
  split at h
  · rename_i hbuffer
    refine ⟨by simpa using hbuffer,?_⟩
    cases hprogram : c.program with
    | stmt q next => exact ⟨q,next,rfl,by simpa [hprogram,due] using h⟩
    | _ => simp [hprogram,due] at h
  · simp at h

/-- What an instruction makes visible leaves every organisation that has an owner with one. -/
theorem hasOwner_landing (hheld : ∀ k ∈ pastGuard c, Cleared db.members k.1 k.2)
    (hunguarded : pastGuard c = none → Unrefused db (c.landing db)) (h : directoryDatabase.land db (c.landing db) = some db')
    {orgId : Nat} (ho : HasOwner db orgId) : HasOwner db' orgId := by
  cases hpast : pastGuard c with
  | none => exact hasOwner_land h (hunguarded hpast) ho
  | some k =>
    obtain ⟨hbuffer,q,next,hprogram,htarget⟩ := pastGuard_eq_some hpast
    obtain ⟨w,hw,htaken⟩ := eval_target htarget db.val
    have hlanding : c.landing db = [w] := by rw [Client.landing,hprogram,hbuffer,← hw]
    rw [hlanding,Database.land_cons] at h
    obtain ⟨landed,hlanded,h⟩ := Option.bind_eq_some_iff.mp h
    cases h
    refine hasOwner_write hlanded (fun userId hfrom => ?_) ho
    obtain rfl := htaken _ hfrom
    exact hheld _ hpast

/-- An instruction keeps the writes that follow behind their guards, and one after which a
guard is passed was that guard. -/
theorem guards_advance (hguards : GuardsWrites c.program) (h : c.advance .database db = some (db',c')) :
    GuardsWrites c'.program ∧ ∀ k ∈ pastGuard c', Cleared db'.members k.1 k.2 := by
  rcases Client.advance_cases h with ⟨-,rfl⟩ | ⟨hland,⟨next,hprogram,rfl⟩ | ⟨next,hprogram,rfl⟩ | ⟨q,next,view,hprogram,hview,rfl⟩⟩
  · exact ⟨trivial,fun k hk => absurd hk (by simp [pastGuard,due])⟩
  · rw [hprogram] at hguards
    exact ⟨hguards.1,fun k hk => absurd hk (by simp [pastGuard])⟩
  · rw [hprogram] at hguards
    exact ⟨hguards.1,fun k hk => absurd hk (by simp [pastGuard,hguards.2])⟩
  · rw [hprogram] at hguards
    refine ⟨(hguards _).1,fun k hk => ?_⟩
    obtain ⟨hbuffer,-,-,-,-⟩ := pastGuard_eq_some hk
    have hnone : c.buffer = none := Option.map_eq_none_iff.mp hbuffer
    rw [Client.view,hnone] at hview
    cases hview
    have hdue : due (next (directoryDatabase.eval db q).1) = some k := by simpa [pastGuard,hnone] using hk
    have hclears := (hguards _).2 k hdue
    cases q with
    | lastOwnerRow orgId userId =>
      have hlanding : c.landing db = [] := by rw [Client.landing,hprogram,hnone]; rfl
      rw [hlanding] at hland
      cases hland
      obtain ⟨rfl,hpass⟩ := hclears
      exact cleared_of_guard hpass
    | _ => exact hclears.elim

theorem guardsHold_step (hs : GuardsHold s) (hallowed : Undisturbed s a) (h : directoryStep d s a = some t) : GuardsHold t := by
  rcases Server.step_cases h with ⟨call,rfl,rfl⟩ | ⟨i,c,db,c',rfl,hc,hadvance,rfl⟩
  · intro c hc
    rcases List.mem_append.mp hc with hc | hc
    · exact hs c hc
    · obtain rfl := List.mem_singleton.mp hc
      obtain ⟨hdue,hguards⟩ := guarded_body d call.1 call.2
      exact ⟨hguards,fun k hk => absurd hk (by simp [pastGuard,hdue])⟩
  · intro other hother
    obtain ⟨j,hj⟩ := List.mem_iff_getElem?.mp hother
    by_cases hij : i = j
    · subst hij
      rw [List.getElem?_set_self (List.getElem?_eq_some_iff.mp hc).1] at hj
      cases hj
      exact guards_advance (hs c (List.mem_of_getElem? hc)).1 hadvance
    · rw [List.getElem?_set_ne hij] at hj
      obtain ⟨hguards,hcleared⟩ := hs other (List.mem_of_getElem? hj)
      refine ⟨hguards,fun k hk => ?_⟩
      have hmem : other ∈ s.clients.eraseIdx i := List.mem_eraseIdx_iff_getElem?.mpr ⟨j,Ne.symm hij,hj⟩
      rcases Client.advance_cases hadvance with ⟨rfl,-⟩ | ⟨hland,-⟩
      · exact hcleared k hk
      · exact cleared_land hland ((hallowed c hc).2 other hmem k hk) (hcleared k hk)

theorem hasOwner_step (hs : GuardsHold s) (hallowed : Undisturbed s a) (h : directoryStep d s a = some t) {orgId : Nat}
    (ho : HasOwner s.db orgId) : HasOwner t.db orgId := by
  rcases Server.step_cases h with ⟨call,rfl,rfl⟩ | ⟨i,c,db,c',rfl,hc,hadvance,rfl⟩
  · exact ho
  · rcases Client.advance_cases hadvance with ⟨rfl,-⟩ | ⟨hland,-⟩
    · exact ho
    · exact hasOwner_landing (hs c (List.mem_of_getElem? hc)).2 (hallowed c hc).1 hland ho

/-- In a run where no unguarded row is one that the guard would refuse, and none overtakes a
request between its guard and its write, an organisation that has an owner keeps one. -/
theorem owners_kept (hs : Run (directoryStep d) Undisturbed ⟨db,[]⟩ s) (ht : Run (directoryStep d) Undisturbed s t) {orgId : Nat}
    (ho : HasOwner s.db orgId) : HasOwner t.db orgId := by
  have hheld : GuardsHold s := hs.invariant (fun _ _ _ => guardsHold_step) fun c hc => absurd hc (by simp)
  exact ht.relates (fun _ h => h) (fun _ _ _ h h' ho => h' (h ho)) (fun _ _ _ => guardsHold_step)
    (fun _ _ _ hs ha h => hasOwner_step hs ha h) hheld ho

def twoMembersDb (role role' : OrgRole) : DirectoryDb where
  val := {
    accounts := {
      users := ⟨[⟨1,js "a@x.y",js "A",none,none,false,.active⟩,⟨2,js "b@x.y",js "B",none,none,false,.active⟩],by decide⟩
      emails := by decide
      members := ⟨[⟨1,1,role⟩,⟨1,2,role'⟩],by simp [MemberRow.key]⟩
      membersUsers := by simp [Table.lookup]
      apiKeys := .empty
      sessions := .empty
      domains := .empty
      mailboxes := .empty
      invites := .empty
      identities := .empty
      identitiesUsers := by decide }
    scimUsers := .empty
    scimGroups := .empty
    groupMembers := .empty
    ldapIdentities := .empty }
  property := by simp [DirectoryTables.Consistent,Table.empty]

def plainDeployment : Deployment := ⟨asciiCase,plainCrypto,30⟩

/-- A sync of a directory that has the first member in no group, so that the default role
is the one it writes. -/
def syncFirst : List (ServerAction (Nat × DirectoryCall)) :=
  .call (0,.ldapSync ⟨1,1,[],.member,false⟩ id [⟨js "cn=a",some (js "a@x.y"),none,[]⟩] fun _ => 9) :: List.replicate 7 (.exec 0)

/-- Both members leave; the guards of both come before the first write. -/
def bothLeave : List (ServerAction (Nat × DirectoryCall)) :=
  [.call (0,.removeMember 1 1 1),.call (0,.removeMember 2 1 2),.exec 0,.exec 1,.exec 0,.exec 1]

/-- One owner becomes a member by the sync and then leaves; the other one stays. -/
theorem sync_and_leave_keep_owner : ∃ t, Run (directoryStep plainDeployment) Undisturbed ⟨twoMembersDb .owner .owner,[]⟩ t ∧
    t.db.members.lookup (1,1) = none ∧ HasOwner t.db 1 := by
  have hactions : (runActions (directoryStep plainDeployment) Undisturbed ⟨twoMembersDb .owner .owner,[]⟩
      (syncFirst ++ [.call (0,.removeMember 1 1 1),.exec 1,.exec 1])).map (·.db.members.lookup (1,1)) = some none := by decide
  obtain ⟨t,ht,hgone⟩ := Option.map_eq_some_iff.mp hactions
  have hrun := Run.of_actions ht
  exact ⟨t,hrun,hgone,owners_kept (.refl _) hrun (by decide)⟩

private theorem owner_lost {s : Server directoryDatabase ApiError Unit} {actions : List (ServerAction (Nat × DirectoryCall))}
    (h : (runActions (directoryStep plainDeployment) (fun _ _ => True) s actions).map (fun t => decide (HasOwner t.db 1)) = some false) :
    ∃ t, Run (directoryStep plainDeployment) (fun _ _ => True) s t ∧ ¬HasOwner t.db 1 := by
  obtain ⟨t,ht,hlost⟩ := Option.map_eq_some_iff.mp h
  exact ⟨t,.of_actions ht,of_decide_eq_false hlost⟩

/-- A sync takes the role from the only owner, and two owners leave at the same time. -/
theorem last_owner_lost :
    (HasOwner (twoMembersDb .owner .member) 1 ∧
      ∃ t, Run (directoryStep plainDeployment) (fun _ _ => True) ⟨twoMembersDb .owner .member,[]⟩ t ∧ ¬HasOwner t.db 1) ∧
    HasOwner (twoMembersDb .owner .owner) 1 ∧
      ∃ t, Run (directoryStep plainDeployment) (fun _ _ => True) ⟨twoMembersDb .owner .owner,[]⟩ t ∧ ¬HasOwner t.db 1 := by
  have hsync := @owner_lost ⟨twoMembersDb .owner .member,[]⟩ syncFirst (by decide)
  have hrace := @owner_lost ⟨twoMembersDb .owner .owner,[]⟩ bothLeave (by decide)
  exact ⟨⟨by decide,hsync⟩,by decide,hrace⟩

end Landing
end JustMail.Accounts
