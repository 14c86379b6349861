import JustMail.Postfix.MailAliases

/-! The tables of accounts, memberships and sessions, with what the services read from
them: `requireRole` of `OrgsService`, `createSession` and `resolveSession` of `AuthService`. -/
namespace JustMail.Accounts
open Foundation Postfix

inductive OrgRole where
  | owner | admin | member | viewer
  deriving DecidableEq

/-- `ROLE_RANK`. -/
def OrgRole.rank : OrgRole → Nat
  | .owner => 3
  | .admin => 2
  | .member => 1
  | .viewer => 0

inductive UserStatus where
  | active | suspended | invited
  deriving DecidableEq

/-- A row of `users`. Accounts of an identity provider have no password hash. -/
structure UserRow where
  id : Nat
  email : JsString
  name : JsString
  passwordHash : Option JsString
  totpSecret : Option JsString
  totpEnabled : Bool
  status : UserStatus
  deriving DecidableEq

structure MemberRow where
  orgId : Nat
  userId : Nat
  role : OrgRole
  deriving DecidableEq

def MemberRow.key (m : MemberRow) : Nat × Nat := (m.orgId,m.userId)

structure ApiKeyRow where
  id : Nat
  orgId : Nat
  scopes : List JsString
  expiresAt : Option Nat
  revokedAt : Option Nat
  deriving DecidableEq

structure SessionRow where
  tokenHash : JsString
  userId : Nat
  expiresAt : Nat
  mailboxId : Option Nat
  deriving DecidableEq

structure MailDomainRow where
  id : Nat
  orgId : Nat
  name : Hostname
  deriving DecidableEq

structure MailAccountRow where
  id : Nat
  domainId : Nat
  localPart : LocalPart
  passwordHash : JsString
  status : MailboxStatus
  deriving DecidableEq

structure InviteRow where
  id : Nat
  orgId : Nat
  email : JsString
  role : OrgRole
  tokenHash : JsString
  invitedBy : Option Nat
  expiresAt : Nat
  acceptedAt : Option Nat
  deriving DecidableEq

structure IdentityRow where
  providerId : Nat
  subject : JsString
  userId : Nat
  deriving DecidableEq

def IdentityRow.key (i : IdentityRow) : Nat × JsString := (i.providerId,i.subject)

/-- `lower` of the database, by which `citext` values are compared. What it makes of letters beyond ASCII is up to the locale. -/
structure Collation where
  lower : JsString → JsString
  lower_ascii (s : JsString) : (∀ c ∈ s, c < 128) → lower s = citext s

/-- A locale without letters beyond ASCII. -/
def Collation.ascii : Collation := ⟨citext,fun _ _ => rfl⟩

/-- The rows, with the unique constraint on `users.email` and the foreign keys to `users`. -/
structure AccountDb where
  collation : Collation := .ascii
  users : Table UserRow.id
  emails : (users.rows.map fun u => collation.lower u.email).Nodup
  members : Table MemberRow.key
  membersUsers : ∀ m ∈ members.rows, (users.lookup m.userId).isSome = true
  apiKeys : Table ApiKeyRow.id
  sessions : Table SessionRow.tokenHash
  domains : Table MailDomainRow.id
  mailboxes : Table MailAccountRow.id
  invites : Table InviteRow.tokenHash
  identities : Table IdentityRow.key
  identitiesUsers : ∀ i ∈ identities.rows, (users.lookup i.userId).isSome = true

namespace AccountDb
variable (db : AccountDb)

/-- The ids that other tables may refer to. -/
def hasUser (id : Nat) : Bool := (db.users.lookup id).isSome

abbrev lower : JsString → JsString := db.collation.lower

/-- `SELECT .. FROM users WHERE email = $1`. -/
def userByEmail (email : JsString) : Option UserRow := db.users.rows.find? fun u => db.lower u.email = db.lower email

theorem userByEmail_eq_some {db : AccountDb} {email : JsString} {u : UserRow} :
    db.userByEmail email = some u ↔ u ∈ db.users.rows ∧ db.lower u.email = db.lower email := by
  constructor
  · intro h
    exact ⟨List.mem_of_find?_eq_some h,by simpa using List.find?_some h⟩
  · rintro ⟨hu,hemail⟩
    cases hfind : db.userByEmail email with
    | none => simpa [hemail] using List.find?_eq_none.mp hfind u hu
    | some u' =>
      have hemail' : db.lower u'.email = db.lower email := by simpa using List.find?_some hfind
      rw [List.inj_on_of_nodup_map db.emails (List.mem_of_find?_eq_some hfind) hu (hemail'.trans hemail.symm)]

/-- Addresses that the database does not tell apart name the same account. -/
theorem userByEmail_congr {email email' : JsString} (h : db.lower email = db.lower email') :
    db.userByEmail email = db.userByEmail email' := by
  rw [userByEmail,userByEmail,h]

theorem lookup_of_userByEmail {db : AccountDb} {email : JsString} {u : UserRow} (h : db.userByEmail email = some u) :
    db.users.lookup u.id = some u := Table.lookup_of_mem (userByEmail_eq_some.mp h).1

/-- `INSERT INTO users`; `none` where a constraint is violated. -/
def insertUser (u : UserRow) : Option AccountDb :=
  if h : db.users.lookup u.id = none ∧ db.userByEmail u.email = none then
    some { db with
      users := db.users.insert u h.1
      emails := by
        rw [Table.insert,List.map_append,List.nodup_append]
        refine ⟨db.emails,List.nodup_singleton _,?_⟩
        rintro email hemail email' hemail' rfl
        obtain ⟨u',hu',rfl⟩ := List.mem_map.mp hemail
        have hne := List.find?_eq_none.mp h.2 u' hu'
        simp_all
      membersUsers := by
        intro m hm
        rw [Table.lookup_insert]
        split
        · rfl
        · exact db.membersUsers m hm
      identitiesUsers := by
        intro i hi
        rw [Table.lookup_insert]
        split
        · rfl
        · exact db.identitiesUsers i hi }
  else none

/-- `INSERT INTO org_members .. ON CONFLICT DO UPDATE`; `none` without the user. -/
def upsertMember (m : MemberRow) : Option AccountDb :=
  if h : (db.users.lookup m.userId).isSome = true then
    some { db with
      members := db.members.upsert m
      membersUsers := by
        intro m' hm'
        have hlookup := Table.lookup_of_mem hm'
        rw [Table.lookup_upsert] at hlookup
        split at hlookup
        · rw [← Option.some.inj hlookup]
          exact h
        · exact db.membersUsers m' (Table.lookup_eq_some.mp hlookup).1 }
  else none

/-- The same with `ON CONFLICT DO NOTHING`. -/
def insertMember (m : MemberRow) : Option AccountDb :=
  if (db.members.lookup m.key).isSome then some db else db.upsertMember m

/-- `INSERT INTO sso_identities`. -/
def insertIdentity (i : IdentityRow) : Option AccountDb :=
  if h : db.identities.lookup i.key = none ∧ (db.users.lookup i.userId).isSome = true then
    some { db with
      identities := db.identities.insert i h.1
      identitiesUsers := by
        intro i' hi'
        rcases List.mem_append.mp hi' with hi' | hi'
        · exact db.identitiesUsers i' hi'
        · rw [List.mem_singleton.mp hi']
          exact h.2 }
  else none

def insertSession (s : SessionRow) : Option AccountDb :=
  if h : db.sessions.lookup s.tokenHash = none then some { db with sessions := db.sessions.insert s h } else none

theorem insertUser_spec {db db' : AccountDb} {u : UserRow} (h : db.insertUser u = some db') :
    db.users.lookup u.id = none ∧ db.userByEmail u.email = none ∧ db'.users.lookup u.id = some u ∧
    db'.members = db.members ∧ db'.apiKeys = db.apiKeys := by
  rw [insertUser] at h
  split at h
  · rename_i hfresh
    cases h
    exact ⟨hfresh.1,hfresh.2,by rw [Table.lookup_insert,if_pos rfl],rfl,rfl⟩
  · simp at h

theorem upsertMember_spec {db db' : AccountDb} {m : MemberRow} (h : db.upsertMember m = some db') :
    (db.users.lookup m.userId).isSome = true ∧ db'.users = db.users ∧ db'.sessions = db.sessions ∧
    db'.identities = db.identities ∧ db'.members = db.members.upsert m := by
  rw [upsertMember] at h
  split at h
  · rename_i huser
    cases h
    exact ⟨huser,rfl,rfl,rfl,rfl⟩
  · simp at h

theorem upsertMember_isSome (m : MemberRow) (h : (db.users.lookup m.userId).isSome = true) :
    ∃ db', db.upsertMember m = some db' := by
  rw [upsertMember,dif_pos h]
  exact ⟨_,rfl⟩

/-- A membership that is there or is added leaves accounts, sessions and links alone. -/
theorem insertMember_isSome (m : MemberRow) (h : (db.users.lookup m.userId).isSome = true) :
    ∃ db', db.insertMember m = some db' ∧ db'.users = db.users ∧ db'.sessions = db.sessions ∧ db'.identities = db.identities := by
  rw [insertMember]
  split
  · exact ⟨db,rfl,rfl,rfl,rfl⟩
  · obtain ⟨db',hdb'⟩ := db.upsertMember_isSome m h
    obtain ⟨-,husers,hsessions,hidentities,-⟩ := upsertMember_spec hdb'
    exact ⟨db',hdb',husers,hsessions,hidentities⟩

theorem insertIdentity_isSome (i : IdentityRow) (hlink : db.identities.lookup i.key = none)
    (huser : (db.users.lookup i.userId).isSome = true) : ∃ db', db.insertIdentity i = some db' ∧ db'.sessions = db.sessions := by
  rw [insertIdentity,dif_pos ⟨hlink,huser⟩]
  exact ⟨_,rfl,rfl⟩

end AccountDb

/-- `roleFromScopes`. -/
def roleFromScopes (scopes : List JsString) : OrgRole :=
  if scopes.isEmpty then .admin
  else if scopes.contains (js "admin") then .admin
  else if scopes.contains (js "write") then .member
  else .viewer

inductive AccessError where
  | orgNotFound
  | insufficientRole (minRole : OrgRole)
  deriving DecidableEq

def keyRole (db : AccountDb) (now orgId keyId : Nat) : Option OrgRole :=
  ((db.apiKeys.lookup keyId).filter fun k => k.revokedAt.isNone && k.expiresAt.all (now < ·) && k.orgId == orgId).map
    (roleFromScopes ·.scopes)

def requireRole (db : AccountDb) (now orgId userId : Nat) (minRole : OrgRole) : Except AccessError OrgRole :=
  match ((db.members.lookup (orgId,userId)).map (·.role)).or (keyRole db now orgId userId) with
  | none => .error .orgNotFound
  | some role => if role.rank < minRole.rank then .error (.insufficientRole minRole) else .ok role

def HasRole (db : AccountDb) (now userId : Nat) : Prop :=
  ∃ orgId minRole role, requireRole db now orgId userId minRole = .ok role

/-- Organisation 1 with its only user, an administrator. -/
def soleAdmin : AccountDb where
  users := ⟨[⟨1,js "a@b.c",js "A",none,none,false,.active⟩],by decide⟩
  emails := by decide
  members := ⟨[⟨1,1,.admin⟩],by decide⟩
  membersUsers := by decide
  apiKeys := .empty
  sessions := .empty
  domains := .empty
  mailboxes := .empty
  invites := .empty
  identities := .empty
  identitiesUsers := by decide

/-- Roles depend on the memberships and the keys alone. -/
theorem requireRole_congr {db db' : AccountDb} (hmembers : db'.members = db.members) (hkeys : db'.apiKeys = db.apiKeys)
    (now orgId userId : Nat) (minRole : OrgRole) : requireRole db' now orgId userId minRole = requireRole db now orgId userId minRole := by
  rw [requireRole,requireRole,keyRole,keyRole,hmembers,hkeys]

theorem hasRole_congr {db db' : AccountDb} (hmembers : db'.members = db.members) (hkeys : db'.apiKeys = db.apiKeys) (now userId : Nat) :
    HasRole db' now userId ↔ HasRole db now userId := by
  simp only [HasRole,requireRole_congr hmembers hkeys]

theorem not_hasRole {db : AccountDb} {now userId : Nat} (huser : db.users.lookup userId = none) (hkey : db.apiKeys.lookup userId = none) :
    ¬HasRole db now userId := by
  rintro ⟨orgId,minRole,role,h⟩
  have hmember : db.members.lookup (orgId,userId) = none := by
    cases hm : db.members.lookup (orgId,userId) with
    | none => rfl
    | some m =>
      obtain ⟨hmem,hmkey⟩ := Table.lookup_eq_some.mp hm
      have hexists := db.membersUsers m hmem
      obtain rfl : m.userId = userId := (Prod.mk.inj hmkey).2
      simp [huser] at hexists
  simp [requireRole,keyRole,hmember,hkey] at h

section Sessions

/-- What the services use of argon2, SHA-256, TOTP and the secretbox. Nothing verifies
against the hash of rows that have no password. -/
structure Crypto where
  dummyHash : JsString
  argon2Hash : JsString → JsString → JsString
  argon2Verify : JsString → JsString → Bool
  sha256 : JsString → JsString
  totpValid : JsString → JsString → Bool
  openSealed : JsString → JsString
  verify_hash : ∀ salt password, argon2Verify (argon2Hash salt password) password = true
  dummy_unusable : ∀ password, argon2Verify dummyHash password = false

variable (crypto : Crypto) (ttl : Nat)

/-- `createSession` with the random token it draws. -/
def createSession (db : AccountDb) (now : Nat) (token : JsString) (userId : Nat) (mailboxId : Option Nat) : Option AccountDb :=
  db.insertSession ⟨crypto.sha256 token,userId,now + ttl,mailboxId⟩

structure SessionPrincipal where
  userId : Nat
  email : JsString
  name : JsString
  mailboxId : Option Nat
  orgId : Option Nat
  deriving DecidableEq

/-- `local_part || '@' || name`. -/
def mailAddress (mb : MailAccountRow) (d : MailDomainRow) : JsString := mb.localPart.text ++ AT :: d.name.text

def mailboxWithDomain (db : AccountDb) (mailboxId : Nat) : Option (MailAccountRow × MailDomainRow) :=
  (db.mailboxes.lookup mailboxId).bind fun mb => (db.domains.lookup mb.domainId).map fun d => (mb,d)

/-- Who a session stands for. -/
def principalOf (db : AccountDb) (s : SessionRow) (u : UserRow) : SessionPrincipal :=
  let bound := s.mailboxId.bind (mailboxWithDomain db)
  ⟨u.id,(bound.map fun p => mailAddress p.1 p.2).getD u.email,u.name,s.mailboxId,bound.map (·.2.orgId)⟩

def resolveSession (db : AccountDb) (now : Nat) (token : JsString) : Option SessionPrincipal :=
  (db.sessions.lookup (crypto.sha256 token)).bind fun s =>
    (db.users.lookup s.userId).bind fun u =>
      if now < s.expiresAt ∧ u.status = .active then some (principalOf db s u) else none

variable {crypto ttl} {db db' : AccountDb} {now later : Nat} {token : JsString} {mailboxId : Option Nat}

/-- A new session leaves everything else alone. -/
theorem createSession_spec {userId : Nat} (h : createSession crypto ttl db now token userId mailboxId = some db') :
    db'.sessions.lookup (crypto.sha256 token) = some ⟨crypto.sha256 token,userId,now + ttl,mailboxId⟩ ∧
    db'.users = db.users ∧ db'.members = db.members ∧ db'.apiKeys = db.apiKeys := by
  rw [createSession,AccountDb.insertSession] at h
  split at h
  · cases h
    exact ⟨by rw [Table.lookup_insert,if_pos rfl],rfl,rfl,rfl⟩
  · simp at h

theorem resolveSession_userId {userId : Nat} (h : createSession crypto ttl db now token userId mailboxId = some db')
    {principal : SessionPrincipal} (hresolve : resolveSession crypto db' later token = some principal) :
    principal.userId = userId ∧ later < now + ttl ∧ ∃ u, db.users.lookup userId = some u ∧ u.status = .active := by
  obtain ⟨hsession,husers,-,-⟩ := createSession_spec h
  rw [resolveSession,hsession,Option.bind_some] at hresolve
  dsimp only at hresolve
  obtain ⟨u,hu,hprincipal⟩ := Option.bind_eq_some_iff.mp hresolve
  rw [husers] at hu
  have hid : u.id = userId := Table.key_of_lookup hu
  split at hprincipal
  · rename_i hvalid
    cases hprincipal
    exact ⟨hid,hvalid.1,u,hu,hvalid.2⟩
  · simp at hprincipal

theorem resolveSession_created {u : UserRow} (h : createSession crypto ttl db now token u.id mailboxId = some db')
    (hu : db.users.lookup u.id = some u) (hactive : u.status = .active) (hlater : later < now + ttl) :
    ∃ principal, resolveSession crypto db' later token = some principal ∧ principal.userId = u.id := by
  obtain ⟨hsession,husers,-,-⟩ := createSession_spec h
  refine ⟨principalOf db' ⟨crypto.sha256 token,u.id,now + ttl,mailboxId⟩ u,?_,rfl⟩
  rw [resolveSession,hsession,Option.bind_some]
  dsimp only
  rw [husers,hu,Option.bind_some,if_pos ⟨hlater,hactive⟩]

theorem createSession_isSome (hfresh : db.sessions.lookup (crypto.sha256 token) = none) (ttl now userId : Nat)
    (mailboxId : Option Nat) : ∃ db', createSession crypto ttl db now token userId mailboxId = some db' := by
  rw [createSession,AccountDb.insertSession,dif_pos hfresh]
  exact ⟨_,rfl⟩

/-- Hashes that can be read, for the examples. -/
def plainCrypto : Crypto where
  dummyHash := js "!"
  argon2Hash _ password := js "h:" ++ password
  argon2Verify hash password := hash == js "h:" ++ password
  sha256 token := token
  totpValid secret code := secret == code
  openSealed sealed := sealed
  verify_hash := by simp
  dummy_unusable password := by
    rw [beq_eq_false_iff_ne]
    intro h
    have hlength := congrArg List.length h
    have hdummy : (js "!").length = 1 := by decide
    have hhash : (js "h:").length = 2 := by decide
    rw [List.length_append,hdummy,hhash] at hlength
    omega

end Sessions
end JustMail.Accounts
