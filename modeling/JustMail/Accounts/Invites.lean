import JustMail.Accounts.Login

/-! `InvitesService`: an invite is made out to an address, and accepting it gives a session
of the account with that address. -/
namespace JustMail.Accounts
open Foundation Postfix

section Model

/-- `INVITE_TTL_DAYS`, in seconds. -/
def INVITE_TTL : Nat := 14 * 86400

inductive InviteError where
  | access (e : AccessError)
  | alreadyMember
  | notFound
  | alreadyUsed
  | expired
  | database
  deriving DecidableEq

structure CreateInviteRequest where
  email : JsString
  role : OrgRole

structure AcceptInviteRequest where
  password : JsString
  name : JsString

variable (crypto : Crypto)

/-- `create`, with the token and the id that it draws. -/
def createInvite (db : AccountDb) (now : Nat) (principal : SessionPrincipal) (orgId : Nat) (req : CreateInviteRequest)
    (token : JsString) (inviteId : Nat) : Except InviteError (AccountDb × InviteRow) :=
  match requireRole db now orgId principal.userId .admin with
  | .error e => .error (.access e)
  | .ok _ =>
    match if req.role = .owner then requireRole db now orgId principal.userId .owner else .ok req.role with
    | .error e => .error (.access e)
    | .ok _ =>
      if (db.userByEmail req.email).any fun u => (db.members.lookup (orgId,u.id)).isSome then .error .alreadyMember
      else
        let invite := ⟨inviteId,orgId,req.email,req.role,crypto.sha256 token,some principal.userId,now + INVITE_TTL,none⟩
        if h : db.invites.lookup (crypto.sha256 token) = none then .ok ({ db with invites := db.invites.insert invite h },invite)
        else .error .database

def loadPending (db : AccountDb) (now : Nat) (token : JsString) : Except InviteError InviteRow :=
  match db.invites.lookup (crypto.sha256 token) with
  | none => .error .notFound
  | some invite =>
    if invite.acceptedAt.isSome then .error .alreadyUsed
    else if invite.expiresAt < now then .error .expired
    else .ok invite

/-- `DELETE FROM invites WHERE id = $1 AND org_id = $2 AND accepted_at IS NULL`. -/
def InviteRow.revoked (orgId inviteId : Nat) (i : InviteRow) : Bool := i.id == inviteId && i.orgId == orgId && i.acceptedAt.isNone

def revoke (db : AccountDb) (now : Nat) (principal : SessionPrincipal) (orgId inviteId : Nat) : Except InviteError AccountDb :=
  match requireRole db now orgId principal.userId .admin with
  | .error e => .error (.access e)
  | .ok _ =>
    if db.invites.rows.any (·.revoked orgId inviteId) then .ok { db with invites := db.invites.deleteWhere (·.revoked orgId inviteId) }
    else .error .notFound

/-- `UPDATE invites SET accepted_at = now() WHERE id = $1`. -/
def markAccepted (db : AccountDb) (now inviteId : Nat) : AccountDb :=
  { db with invites := db.invites.updateWhere (·.id == inviteId) (fun i => { i with acceptedAt := some now }) fun _ => rfl }

/-- The transaction of `accept`, given the id that was found for the address. -/
def acceptTx (db : AccountDb) (now : Nat) (invite : InviteRow) (existing : Option Nat) (req : AcceptInviteRequest)
    (salt : JsString) (newId : Nat) : Option (AccountDb × Nat) :=
  let user := match existing with
    | some userId => some (db,userId)
    | none => (db.insertUser ⟨newId,invite.email,req.name,some (crypto.argon2Hash salt req.password),none,false,.active⟩).map (·,newId)
  user.bind fun (db,userId) =>
    (db.upsertMember ⟨invite.orgId,userId,invite.role⟩).map fun db => (markAccepted db now invite.id,userId)

/-- The database as each part of `accept` meets it; other requests run in between. -/
structure AcceptStates where
  atLoad : AccountDb
  atSelect : AccountDb
  atCommit : AccountDb

structure AcceptResult where
  db : AccountDb
  token : JsString
  userId : Nat

def accept (ttl : Nat) (s : AcceptStates) (now : Nat) (token : JsString) (req : AcceptInviteRequest) (salt : JsString)
    (draw : Draw) : Except InviteError AcceptResult :=
  match loadPending crypto s.atLoad now token with
  | .error e => .error e
  | .ok invite =>
    let existing := (s.atSelect.userByEmail invite.email).map (·.id)
    match acceptTx crypto s.atCommit now invite existing req salt draw.userId with
    | none => .error .database
    | some (db,userId) =>
      match createSession crypto ttl db now draw.token userId none with
      | none => .error .database
      | some db => .ok ⟨db,draw.token,userId⟩

end Model

section Sessions
variable {crypto : Crypto} {ttl : Nat} {s : AcceptStates} {now : Nat} {token salt : JsString} {req : AcceptInviteRequest} {draw : Draw}
variable {invite : InviteRow}

/-- A session is that of an account which the call has created, or whose password the request has. -/
def AcceptSound (crypto : Crypto) (ttl : Nat) (s : AcceptStates) (now : Nat) (token : JsString) (req : AcceptInviteRequest)
    (salt : JsString) (draw : Draw) : Prop :=
  ∀ r, accept crypto ttl s now token req salt draw = .ok r →
    s.atCommit.users.lookup r.userId = none ∨ ∃ u, s.atCommit.users.lookup r.userId = some u ∧ OwnPassword crypto u req.password

/-- The address of the invite is that of an account with another password. -/
def Impersonates (crypto : Crypto) (s : AcceptStates) (now : Nat) (token : JsString) (req : AcceptInviteRequest) : Prop :=
  ∃ invite found u, loadPending crypto s.atLoad now token = .ok invite ∧ s.atSelect.userByEmail invite.email = some found ∧
    s.atCommit.users.lookup found.id = some u ∧ ¬OwnPassword crypto u req.password

/-- What `accept` does where it returns a session. -/
theorem accept_ok {r : AcceptResult} (h : accept crypto ttl s now token req salt draw = .ok r) :
    ∃ invite db, loadPending crypto s.atLoad now token = .ok invite ∧
      acceptTx crypto s.atCommit now invite ((s.atSelect.userByEmail invite.email).map (·.id)) req salt draw.userId =
        some (db,r.userId) := by
  rw [accept] at h
  split at h
  · simp at h
  · rename_i invite hinvite
    dsimp only at h
    split at h
    · simp at h
    · rename_i db userId htx
      split at h
      · simp at h
      · cases h
        exact ⟨invite,db,hinvite,htx⟩

theorem acceptTx_existing {db db' : AccountDb} {found userId newId : Nat}
    (h : acceptTx crypto db now invite (some found) req salt newId = some (db',userId)) :
    userId = found ∧ ∃ u, db.users.lookup found = some u := by
  rw [acceptTx] at h
  dsimp only at h
  rw [Option.bind_some] at h
  obtain ⟨db₁,hmember,heq⟩ := Option.map_eq_some_iff.mp h
  have hexists := (AccountDb.upsertMember_spec hmember).1
  exact ⟨(Prod.mk.inj heq).2.symm,Option.isSome_iff_exists.mp hexists⟩

theorem acceptTx_new {db db' : AccountDb} {userId newId : Nat}
    (h : acceptTx crypto db now invite none req salt newId = some (db',userId)) : db.users.lookup userId = none := by
  rw [acceptTx] at h
  dsimp only at h
  obtain ⟨⟨db₁,userId₁⟩,hinsert,hrest⟩ := Option.bind_eq_some_iff.mp h
  obtain ⟨db₂,hdb₂,heq⟩ := Option.map_eq_some_iff.mp hinsert
  obtain ⟨db₃,-,heq'⟩ := Option.map_eq_some_iff.mp hrest
  cases heq'
  cases heq
  exact (AccountDb.insertUser_spec hdb₂).1

theorem acceptSound_of_not_impersonates (hnot : ¬Impersonates crypto s now token req) :
    AcceptSound crypto ttl s now token req salt draw := by
  intro r hr
  obtain ⟨invite,db,hinvite,htx⟩ := accept_ok hr
  cases hfound : s.atSelect.userByEmail invite.email with
  | none =>
    rw [hfound,Option.map_none] at htx
    exact .inl (acceptTx_new htx)
  | some found =>
    rw [hfound,Option.map_some] at htx
    obtain ⟨hid,u,hu⟩ := acceptTx_existing htx
    refine .inr ⟨u,hid ▸ hu,?_⟩
    by_contra hother
    exact hnot ⟨invite,found,u,hinvite,hfound,hu,hother⟩

/-- Nothing stands between an invite and a session of the account it names. -/
theorem accept_of_existing (ttl : Nat) (s : AcceptStates) (draw : Draw) (req : AcceptInviteRequest) (salt : JsString) {found u : UserRow}
    (hinvite : loadPending crypto s.atLoad now token = .ok invite) (hfound : s.atSelect.userByEmail invite.email = some found)
    (hu : s.atCommit.users.lookup found.id = some u) (htoken : s.atCommit.sessions.lookup (crypto.sha256 draw.token) = none) :
    ∃ r, accept crypto ttl s now token req salt draw = .ok r ∧ r.userId = found.id := by
  obtain ⟨db,hdb⟩ := s.atCommit.upsertMember_isSome ⟨invite.orgId,found.id,invite.role⟩ (by simp [hu])
  obtain ⟨-,-,hsessions,-⟩ := AccountDb.upsertMember_spec hdb
  have htx : acceptTx crypto s.atCommit now invite (some found.id) req salt draw.userId =
      some (markAccepted db now invite.id,found.id) := by
    rw [acceptTx]
    dsimp only
    rw [Option.bind_some,hdb,Option.map_some]
  have hfresh : (markAccepted db now invite.id).sessions.lookup (crypto.sha256 draw.token) = none := by
    rw [markAccepted,hsessions,htoken]
  obtain ⟨db',hdb'⟩ := createSession_isSome hfresh ttl now found.id none
  refine ⟨⟨db',draw.token,found.id⟩,?_,rfl⟩
  rw [accept,hinvite]
  dsimp only
  rw [hfound,Option.map_some,htx]
  dsimp only
  rw [hdb']

/-- `accept` never gives a session of somebody else exactly where the address of the invite is
not that of an account with another password than the one in the request. -/
theorem accept_impersonates_nobody (htoken : s.atCommit.sessions.lookup (crypto.sha256 draw.token) = none) :
    AcceptSound crypto ttl s now token req salt draw ↔ ¬Impersonates crypto s now token req := by
  constructor
  · rintro hsound ⟨invite,found,u,hinvite,hfound,hu,hother⟩
    obtain ⟨r,hr,hid⟩ := accept_of_existing ttl s draw req salt hinvite hfound hu htoken
    rcases hsound r hr with hnone | ⟨u',hu',hown⟩
    · simp [hid,hu] at hnone
    · obtain rfl : u = u' := by simpa [hid,hu] using hu'
      exact hother hown
  · exact acceptSound_of_not_impersonates

def twoOrgsDb : AccountDb where
  users := ⟨[⟨1,js "admin@a.b",js "Admin",some (js "h:admin"),none,false,.active⟩,
    ⟨2,js "boss@c.d",js "Boss",some (js "h:boss"),none,false,.active⟩],by decide⟩
  emails := by decide
  members := ⟨[⟨1,1,.admin⟩,⟨2,2,.owner⟩],by decide⟩
  membersUsers := by decide
  apiKeys := .empty
  sessions := .empty
  domains := .empty
  mailboxes := .empty
  invites := .empty
  identities := .empty
  identitiesUsers := by decide

def adminPrincipal : SessionPrincipal := ⟨1,js "admin@a.b",js "Admin",none,none⟩

/-- The database after the admin has made out an invite. -/
def invitedDb (email : String) : AccountDb :=
  match createInvite plainCrypto twoOrgsDb 0 adminPrincipal 1 ⟨js email,.member⟩ (js "jmi_x") 1 with
  | .ok (db,_) => db
  | .error _ => twoOrgsDb

def inviteFor (email : String) : InviteRow := ⟨1,1,js email,.member,js "jmi_x",some 1,INVITE_TTL,none⟩

def invitedStates (email : String) : AcceptStates := ⟨invitedDb email,invitedDb email,invitedDb email⟩

def chosenPassword : AcceptInviteRequest := ⟨js "mine",js "Me"⟩

theorem accept_new_address : (accept plainCrypto 30 (invitedStates "new@e.f") 0 (js "jmi_x") chosenPassword [] someDraw).isOk = true ∧
    AcceptSound plainCrypto 30 (invitedStates "new@e.f") 0 (js "jmi_x") chosenPassword [] someDraw := by
  refine ⟨by decide,(accept_impersonates_nobody (by decide)).mpr ?_⟩
  rintro ⟨invite,found,u,hinvite,hfound,-⟩
  have hpending : loadPending plainCrypto (invitedDb "new@e.f") 0 (js "jmi_x") = .ok (inviteFor "new@e.f") := by decide
  obtain rfl := Except.ok.inj (hpending.symm.trans hinvite)
  have hnone : (invitedDb "new@e.f").userByEmail (js "new@e.f") = none := by decide
  have hsome : (invitedDb "new@e.f").userByEmail (js "new@e.f") = some found := hfound
  simp [hnone] at hsome

/-- The admin accepts the invite and has a session of the owner of another organisation. -/
theorem invite_gives_foreign_session :
    ∃ r, accept plainCrypto 30 (invitedStates "boss@c.d") 0 (js "jmi_x") chosenPassword [] someDraw = .ok r ∧
    r.userId = 2 ∧ ¬AcceptSound plainCrypto 30 (invitedStates "boss@c.d") 0 (js "jmi_x") chosenPassword [] someDraw := by
  have hpending : loadPending plainCrypto (invitedDb "boss@c.d") 0 (js "jmi_x") = .ok (inviteFor "boss@c.d") := by decide
  have hfound : (invitedDb "boss@c.d").userByEmail (js "boss@c.d") =
      some ⟨2,js "boss@c.d",js "Boss",some (js "h:boss"),none,false,.active⟩ := by decide
  have hlookup := AccountDb.lookup_of_userByEmail hfound
  obtain ⟨r,hr,hid⟩ := accept_of_existing 30 (invitedStates "boss@c.d") someDraw chosenPassword [] hpending hfound hlookup
    (by decide)
  refine ⟨r,hr,hid,fun hsound => ?_⟩
  have hboss : (invitedStates "boss@c.d").atCommit.users.lookup r.userId =
      some ⟨2,js "boss@c.d",js "Boss",some (js "h:boss"),none,false,.active⟩ := hid ▸ hlookup
  rcases hsound r hr with hnone | ⟨u,hu,hash,hhash,hverify⟩
  · simp [hboss] at hnone
  · obtain rfl := Option.some.inj (hboss.symm.trans hu)
    cases hhash
    revert hverify
    decide

end Sessions
end JustMail.Accounts
