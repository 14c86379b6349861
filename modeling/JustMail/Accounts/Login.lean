import JustMail.Accounts.Directory
import JustMail.Postfix.CatchAll

/-! `login` of `AuthService`: console accounts first, then mailboxes, whose sessions hang
on the row of `users` with the address of the mailbox. -/
namespace JustMail.Accounts
open Foundation Postfix

section Model

/-- The address is ASCII by its schema. -/
structure LoginRequest where
  email : JsString
  ascii : ∀ c ∈ email, c < 128
  password : JsString
  totpCode : Option JsString

inductive LoginError where
  | accountSuspended
  | totpRequired
  | totpInvalid
  | invalidCredentials
  | mailboxSuspended
  | database
  deriving DecidableEq

structure LoginResult where
  db : AccountDb
  token : JsString
  expiresAt : Nat

/-- What is drawn at random: the token, and the id of a row that may be inserted. -/
structure Draw where
  token : JsString
  userId : Nat

/-- The parts around the last `@`, in lower case; empty ones without a local part. -/
def splitEmail (email : JsString) : JsString × JsString :=
  match cut AT email.reverse with
  | none => ([],[])
  | some (domain,localPart) => if localPart.isEmpty then ([],[]) else (localPart.reverse.map asciiLower,domain.reverse.map asciiLower)

/-- The query of `mailboxLogin`. -/
def mailboxByAddress (db : AccountDb) (localPart domain : JsString) : Option (MailAccountRow × MailDomainRow) :=
  (db.mailboxes.rows.filterMap fun mb =>
    ((db.domains.lookup mb.domainId).filter fun d =>
      citext mb.localPart.text == citext localPart && d.name.text.map asciiLower == domain).map fun d => (mb,d)).head?

variable (crypto : Crypto) (ttl : Nat) (db : AccountDb) (now : Nat)

/-- `createSession`, and what is returned of it. -/
def signIn (token : JsString) (userId : Nat) (mailboxId : Option Nat) : Except LoginError LoginResult :=
  match createSession crypto ttl db now token userId mailboxId with
  | some db' => .ok ⟨db',token,now + ttl⟩
  | none => .error .database

/-- `INSERT INTO users .. ON CONFLICT (email) DO UPDATE`. -/
def shadowUser (draw : Draw) (address : JsString) : Option (AccountDb × Nat) :=
  match db.userByEmail address with
  | some u => some (db,u.id)
  | none => (db.insertUser ⟨draw.userId,address,address,some crypto.dummyHash,none,false,.active⟩).map (·,draw.userId)

def mailboxLogin (req : LoginRequest) (draw : Draw) : Except LoginError LoginResult :=
  let (localPart,domain) := splitEmail req.email
  let found := mailboxByAddress db localPart domain
  let ok := crypto.argon2Verify ((found.map (·.1.passwordHash)).getD crypto.dummyHash) req.password
  match found with
  | none => .error .invalidCredentials
  | some (mb,d) =>
    if !ok then .error .invalidCredentials
    else if mb.status ≠ .active then .error .mailboxSuspended
    else
      match shadowUser crypto db draw (mailAddress mb d) with
      | some (db',userId) => signIn crypto ttl db' now draw.token userId (some mb.id)
      | none => .error .database

/-- The second factor of an account that has one. -/
def checkTotp (user : UserRow) (req : LoginRequest) : Except LoginError Unit :=
  if user.totpEnabled then
    match req.totpCode with
    | none => .error .totpRequired
    | some code =>
      match user.totpSecret with
      | none => .error .database
      | some secret => if crypto.totpValid (crypto.openSealed secret) code then .ok () else .error .totpInvalid
  else .ok ()

def login (req : LoginRequest) (draw : Draw) : Except LoginError LoginResult :=
  let user := db.userByEmail req.email
  let ok := crypto.argon2Verify ((user.bind (·.passwordHash)).getD crypto.dummyHash) req.password
  match user with
  | none => mailboxLogin crypto ttl db now req draw
  | some user =>
    if !ok then mailboxLogin crypto ttl db now req draw
    else if user.status ≠ .active then .error .accountSuspended
    else
      match checkTotp crypto user req with
      | .error e => .error e
      | .ok _ => signIn crypto ttl db now draw.token user.id none

end Model

section Cases
variable {crypto : Crypto} {ttl : Nat} {db : AccountDb} {now : Nat} {req : LoginRequest} {draw : Draw} {r : LoginResult}

/-- The password of the request is that of the account. -/
def OwnPassword (crypto : Crypto) (u : UserRow) (password : JsString) : Prop :=
  ∃ hash, u.passwordHash = some hash ∧ crypto.argon2Verify hash password = true

/-- The request has a valid code if the account asks for one. -/
def OwnTotp (crypto : Crypto) (u : UserRow) (req : LoginRequest) : Prop :=
  u.totpEnabled = true → ∃ secret code, u.totpSecret = some secret ∧ req.totpCode = some code ∧
    crypto.totpValid (crypto.openSealed secret) code = true

theorem ownPassword_iff {u : UserRow} {password : JsString} :
    crypto.argon2Verify (u.passwordHash.getD crypto.dummyHash) password = true ↔ OwnPassword crypto u password := by
  rw [OwnPassword]
  cases u.passwordHash with
  | none => simp [crypto.dummy_unusable]
  | some hash => simp

theorem signIn_ok {token : JsString} {userId : Nat} {mailboxId : Option Nat}
    (h : signIn crypto ttl db now token userId mailboxId = .ok r) :
    r.token = token ∧ createSession crypto ttl db now token userId mailboxId = some r.db := by
  rw [signIn] at h
  split at h
  · rename_i db' hdb'
    cases h
    exact ⟨rfl,hdb'⟩
  · simp at h

theorem ownTotp_of_ok {u : UserRow} (h : checkTotp crypto u req = .ok ()) : OwnTotp crypto u req := by
  intro henabled
  rw [checkTotp,if_pos henabled] at h
  split at h
  · simp at h
  · rename_i code hcode
    split at h
    · simp at h
    · rename_i secret hsecret
      split at h
      · rename_i hvalid
        exact ⟨secret,code,hsecret,hcode,hvalid⟩
      · simp at h

/-- The mailbox that the request names and whose password it has. -/
def OpensMailbox (crypto : Crypto) (db : AccountDb) (req : LoginRequest) (mb : MailAccountRow) (d : MailDomainRow) : Prop :=
  mailboxByAddress db (splitEmail req.email).1 (splitEmail req.email).2 = some (mb,d) ∧
  crypto.argon2Verify mb.passwordHash req.password = true ∧ mb.status = .active

theorem mailboxLogin_ok (h : mailboxLogin crypto ttl db now req draw = .ok r) :
    ∃ mb d db' userId, OpensMailbox crypto db req mb d ∧ shadowUser crypto db draw (mailAddress mb d) = some (db',userId) ∧
      r.token = draw.token ∧ createSession crypto ttl db' now draw.token userId (some mb.id) = some r.db := by
  rw [mailboxLogin] at h
  dsimp only at h
  split at h
  · simp at h
  · rename_i mb d hfound
    rw [hfound,Option.map_some,Option.getD_some] at h
    split at h
    · simp at h
    · rename_i hverify
      split at h
      · simp at h
      · rename_i hactive
        split at h
        · rename_i db' userId hshadow
          obtain ⟨htoken,hsession⟩ := signIn_ok h
          exact ⟨mb,d,db',userId,⟨hfound,by simpa using hverify,by simpa using hactive⟩,hshadow,htoken,hsession⟩
        · simp at h

/-- How a login can succeed. -/
theorem login_ok (h : login crypto ttl db now req draw = .ok r) :
    (∃ u, db.userByEmail req.email = some u ∧ OwnPassword crypto u req.password ∧ OwnTotp crypto u req ∧
      r.token = draw.token ∧ createSession crypto ttl db now draw.token u.id none = some r.db) ∨
    ((∀ u, db.userByEmail req.email = some u → ¬OwnPassword crypto u req.password) ∧
      mailboxLogin crypto ttl db now req draw = .ok r) := by
  rw [login] at h
  split at h
  · rename_i hnone
    exact .inr ⟨by simp [hnone],h⟩
  · rename_i u hu
    rw [hu,Option.bind_some] at h
    by_cases hown : OwnPassword crypto u req.password
    · rw [if_neg (by simp [ownPassword_iff.mpr hown])] at h
      split at h
      · simp at h
      · split at h
        · simp at h
        · rename_i htotp
          obtain ⟨htoken,hsession⟩ := signIn_ok h
          exact .inl ⟨u,hu,hown,ownTotp_of_ok htotp,htoken,hsession⟩
    · rw [if_pos (by simpa using mt ownPassword_iff.mp hown)] at h
      refine .inr ⟨fun u' hu' => ?_,h⟩
      obtain rfl := Option.some.inj (hu.symm.trans hu')
      exact hown

/-- A login that fails at the console goes on to the mailboxes. -/
theorem login_eq_mailboxLogin (h : ∀ u, db.userByEmail req.email = some u → ¬OwnPassword crypto u req.password) :
    login crypto ttl db now req draw = mailboxLogin crypto ttl db now req draw := by
  rw [login]
  split
  · rfl
  · rename_i u hu
    rw [hu,Option.bind_some,if_pos]
    simpa using mt ownPassword_iff.mp (h u hu)

theorem mailboxLogin_of_opens {mb : MailAccountRow} {d : MailDomainRow} {db' : AccountDb} {userId : Nat}
    (hopens : OpensMailbox crypto db req mb d) (hshadow : shadowUser crypto db draw (mailAddress mb d) = some (db',userId)) :
    mailboxLogin crypto ttl db now req draw = signIn crypto ttl db' now draw.token userId (some mb.id) := by
  obtain ⟨hfound,hverify,hactive⟩ := hopens
  rw [mailboxLogin]
  dsimp only
  rw [hfound]
  dsimp only
  rw [Option.map_some,Option.getD_some,if_neg (by simp [hverify]),if_neg (by simp [hactive]),hshadow]

theorem citext_email {email : JsString} (hl : (splitEmail email).1 ≠ []) :
    citext email = (splitEmail email).1 ++ AT :: (splitEmail email).2 := by
  rw [splitEmail] at hl ⊢
  split at hl
  · exact absurd rfl hl
  · rename_i domain localPart hcut
    split at hl
    · exact absurd rfl hl
    · rename_i hlocal
      have hemail : email = localPart.reverse ++ AT :: domain.reverse := by
        have hreverse := eq_of_cut hcut
        rw [← List.reverse_reverse email,hreverse]
        simp
      have hat : asciiLower AT = AT := by decide
      rw [if_neg hlocal,hemail,citext,List.map_append,List.map_cons,hat]

theorem citext_splitEmail (email : JsString) : citext (splitEmail email).1 = (splitEmail email).1 := by
  rw [splitEmail]
  split
  · rfl
  · split
    · rfl
    · rw [citext,List.map_map]
      refine List.map_congr_left fun c _ => ?_
      exact asciiLower_idempotent c

theorem citext_mailAddress {db : AccountDb} {req : LoginRequest} {mb : MailAccountRow} {d : MailDomainRow}
    (h : mailboxByAddress db (splitEmail req.email).1 (splitEmail req.email).2 = some (mb,d)) :
    citext (mailAddress mb d) = citext req.email := by
  obtain ⟨mb',-,hmb'⟩ := List.mem_filterMap.mp (List.mem_of_mem_head? h)
  obtain ⟨d',hd',heq⟩ := Option.map_eq_some_iff.mp hmb'
  obtain ⟨rfl,rfl⟩ := Prod.mk.inj heq
  have hmatch := (Option.filter_eq_some_iff.mp hd').2
  simp only [Bool.and_eq_true,beq_iff_eq] at hmatch
  obtain ⟨hlocal,hdomain⟩ := hmatch
  have hlower : citext mb'.localPart.text = mb'.localPart.text := citext_eq_self fun c hc => (mb'.localPart.plain hc).lower
  have hne : (splitEmail req.email).1 ≠ [] := by
    intro hnil
    rw [hnil,hlower] at hlocal
    have hlength := mb'.localPart.length.1
    rw [hlocal] at hlength
    simp [citext] at hlength
  have hat : asciiLower AT = AT := by decide
  rw [citext_email hne,mailAddress,citext,List.map_append,List.map_cons,hat,hdomain,← citext,hlocal,citext_splitEmail]

theorem asciiLower_lt {c : CodeUnit} : asciiLower c < 128 ↔ c < 128 := by
  unfold asciiLower
  split
  · rename_i h
    simp only [UInt16.le_iff_toNat_le,UInt16.lt_iff_toNat_lt,UInt16.toNat_add,UInt16.reduceToNat] at h ⊢
    omega
  · rfl

theorem lower_mailAddress {db : AccountDb} {req : LoginRequest} {mb : MailAccountRow} {d : MailDomainRow}
    (h : mailboxByAddress db (splitEmail req.email).1 (splitEmail req.email).2 = some (mb,d)) :
    db.lower (mailAddress mb d) = db.lower req.email := by
  have heq := citext_mailAddress h
  have hascii : ∀ c ∈ mailAddress mb d, c < 128 := by
    intro c hc
    have hlower : asciiLower c ∈ citext req.email := heq ▸ List.mem_map_of_mem hc
    obtain ⟨c',hc',hsame⟩ := List.mem_map.mp hlower
    exact asciiLower_lt.mp (hsame ▸ asciiLower_lt.mpr (req.ascii c' hc'))
  rw [AccountDb.lower,db.collation.lower_ascii _ hascii,db.collation.lower_ascii _ req.ascii,heq]

end Cases

section Borrowing
variable {crypto : Crypto} {ttl : Nat} {db : AccountDb} {now later : Nat} {req : LoginRequest} {draw : Draw}

/-- A session with a role in some organisation is that of an account whose password, and
whose second factor if it has one, the request has. -/
def LoginSound (crypto : Crypto) (ttl : Nat) (db : AccountDb) (now later : Nat) (req : LoginRequest) (draw : Draw) : Prop :=
  ∀ r principal, login crypto ttl db now req draw = .ok r → resolveSession crypto r.db later r.token = some principal →
    HasRole r.db later principal.userId →
    ∃ u, r.db.users.lookup principal.userId = some u ∧ OwnPassword crypto u req.password ∧ OwnTotp crypto u req

/-- The request opens a mailbox whose address is that of an active account with a role and
with another password. -/
def Borrows (crypto : Crypto) (ttl : Nat) (db : AccountDb) (now later : Nat) (req : LoginRequest) : Prop :=
  later < now + ttl ∧ ∃ mb d u, OpensMailbox crypto db req mb d ∧ db.userByEmail req.email = some u ∧
    ¬OwnPassword crypto u req.password ∧ u.status = .active ∧ HasRole db later u.id

theorem login_of_borrows (hborrows : Borrows crypto ttl db now later req)
    (htoken : db.sessions.lookup (crypto.sha256 draw.token) = none) : ¬LoginSound crypto ttl db now later req draw := by
  obtain ⟨hlater,mb,d,u,hopens,hu,hother,hactive,hrole⟩ := hborrows
  intro hsound
  have hshadow : shadowUser crypto db draw (mailAddress mb d) = some (db,u.id) := by
    rw [shadowUser,db.userByEmail_congr (lower_mailAddress hopens.1),hu]
  obtain ⟨db',hsession⟩ := createSession_isSome htoken ttl now u.id (some mb.id)
  have hlogin : login crypto ttl db now req draw = .ok ⟨db',draw.token,now + ttl⟩ := by
    rw [login_eq_mailboxLogin,mailboxLogin_of_opens hopens hshadow,signIn,hsession]
    intro u' hu'
    obtain rfl := Option.some.inj (hu.symm.trans hu')
    exact hother
  have hlookup := AccountDb.lookup_of_userByEmail hu
  obtain ⟨-,husers,hmembers,hkeys⟩ := createSession_spec hsession
  obtain ⟨principal,hresolve,hid⟩ := resolveSession_created hsession hlookup hactive hlater
  obtain ⟨u',hu',hown,-⟩ := hsound _ principal hlogin hresolve (hid ▸ (hasRole_congr hmembers hkeys later u.id).mpr hrole)
  rw [hid,husers,hlookup] at hu'
  cases hu'
  exact hother hown

/-- A session for the row of a mailbox has a role only where the row is an account's. -/
theorem loginSound_of_not_borrows (hnot : ¬Borrows crypto ttl db now later req) (hkey : db.apiKeys.lookup draw.userId = none) :
    LoginSound crypto ttl db now later req draw := by
  intro r principal hlogin hresolve hrole
  rcases login_ok hlogin with ⟨u,hu,hown,htotp,htoken,hsession⟩ | ⟨hother,hmailbox⟩
  · rw [htoken] at hresolve
    obtain ⟨hid,-,-⟩ := resolveSession_userId hsession hresolve
    obtain ⟨-,husers,-,-⟩ := createSession_spec hsession
    exact ⟨u,by rw [hid,husers,AccountDb.lookup_of_userByEmail hu],hown,htotp⟩
  · exfalso
    obtain ⟨mb,d,db',userId,hopens,hshadow,htoken,hsession⟩ := mailboxLogin_ok hmailbox
    rw [htoken] at hresolve
    obtain ⟨hid,hlater,u,hu,hactive⟩ := resolveSession_userId hsession hresolve
    obtain ⟨-,-,hmembers,hkeys⟩ := createSession_spec hsession
    rw [hid,hasRole_congr hmembers hkeys] at hrole
    rw [shadowUser,db.userByEmail_congr (lower_mailAddress hopens.1)] at hshadow
    cases hemail : db.userByEmail req.email with
    | some u' =>
      rw [hemail,Option.some.injEq,Prod.mk.injEq] at hshadow
      obtain ⟨rfl,rfl⟩ := hshadow
      obtain rfl := Option.some.inj (hu.symm.trans (AccountDb.lookup_of_userByEmail hemail))
      exact hnot ⟨hlater,mb,d,u,hopens,hemail,hother u hemail,hactive,hrole⟩
    | none =>
      -- The row is new: nothing refers to it.
      rw [hemail] at hshadow
      obtain ⟨db₁,hinsert,heq⟩ := Option.map_eq_some_iff.mp hshadow
      cases heq
      obtain ⟨hfresh,-,-,hmembers',hkeys'⟩ := AccountDb.insertUser_spec hinsert
      exact not_hasRole hfresh hkey ((hasRole_congr hmembers' hkeys' later draw.userId).mp hrole)

/-- A password login borrows no console rights exactly where the request does not open a
mailbox at the address of an active account with a role and with another password. -/
theorem login_borrows_no_rights (htoken : db.sessions.lookup (crypto.sha256 draw.token) = none)
    (hkey : db.apiKeys.lookup draw.userId = none) :
    LoginSound crypto ttl db now later req draw ↔ ¬Borrows crypto ttl db now later req := by
  constructor
  · intro hsound hborrows
    exact login_of_borrows hborrows htoken hsound
  · intro hnot
    exact loginSound_of_not_borrows hnot hkey

def sharedAddressDb : AccountDb where
  users := ⟨[⟨1,js "boss@a.b",js "Boss",some (js "h:console"),none,false,.active⟩],by decide⟩
  emails := by decide
  members := ⟨[⟨1,1,.owner⟩],by decide⟩
  membersUsers := by decide
  apiKeys := .empty
  sessions := .empty
  domains := ⟨[⟨1,2,⟨js "a.b",by decide,by decide⟩⟩],by decide⟩
  mailboxes := ⟨[⟨1,1,⟨js "boss",by decide,by decide⟩,js "h:mail",.active⟩],by decide⟩
  invites := .empty
  identities := .empty
  identitiesUsers := by decide

def bossLogin (password : String) : LoginRequest := ⟨js "boss@a.b",by decide,js password,none⟩
def someDraw : Draw := ⟨js "t",9⟩

theorem boss_userByEmail : sharedAddressDb.userByEmail (js "boss@a.b") =
    some ⟨1,js "boss@a.b",js "Boss",some (js "h:console"),none,false,.active⟩ := by decide

theorem console_login_sound : (login plainCrypto 30 sharedAddressDb 0 (bossLogin "console") someDraw).isOk = true ∧
    LoginSound plainCrypto 30 sharedAddressDb 0 0 (bossLogin "console") someDraw := by
  refine ⟨by decide,(login_borrows_no_rights (by decide) (by decide)).mpr ?_⟩
  rintro ⟨-,_,_,u,-,hu,hother,-⟩
  obtain rfl := Option.some.inj (boss_userByEmail.symm.trans hu)
  exact hother ⟨js "h:console",rfl,by decide⟩

/-- The password of the mailbox gives a session of the owner. -/
theorem mailbox_password_borrows : ¬LoginSound plainCrypto 30 sharedAddressDb 0 0 (bossLogin "mail") someDraw := by
  refine login_of_borrows ⟨by decide,_,_,_,⟨rfl,by decide,rfl⟩,boss_userByEmail,?_,rfl,1,.owner,.owner,by decide⟩ (by decide)
  rintro ⟨hash,hhash,hverify⟩
  cases hhash
  revert hverify
  decide

end Borrowing
end JustMail.Accounts
