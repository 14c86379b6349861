import JustMail.Accounts.Invites

/-! `SsoService`: an identity that a provider of an organisation asserts becomes a session
of the account it is linked to, of the account with its e-mail, or of a new one. -/
namespace JustMail.Accounts
open Foundation Postfix

section Model

inductive ProviderKind where
  | oidc (emailClaim nameClaim : JsString)
  | saml
  deriving DecidableEq

structure ProviderRow where
  id : Nat
  orgId : Nat
  kind : ProviderKind
  enabled : Bool
  emailDomain : Option JsString
  autoProvision : Bool
  defaultRole : OrgRole
  deriving DecidableEq

inductive ClaimValue where
  | text (value : JsString)
  | flag (value : Bool)
  | other
  deriving DecidableEq

def ClaimValue.text? : ClaimValue → Option JsString
  | .text value => some value
  | _ => none

/-- What the IdP vouches for: the claims of a valid id_token, or the profile of a valid
SAML response. -/
structure Assertion where
  subject : JsString
  claims : List (JsString × ClaimValue)
  email : Option JsString
  name : Option JsString

structure Identity where
  subject : JsString
  email : Option JsString
  name : Option JsString
  deriving DecidableEq

/-- The identity that `completeOidc` or `completeSaml` passes on. -/
def identityOf (provider : ProviderRow) (a : Assertion) : Identity :=
  match provider.kind with
  | .oidc emailClaim nameClaim =>
    ⟨a.subject,(a.claims.lookup emailClaim).bind (·.text?),(a.claims.lookup nameClaim).bind (·.text?)⟩
  | .saml => ⟨a.subject,a.email,a.name⟩

inductive SsoError where
  | notFound
  | accountSuspended
  | noEmail
  | noAccount
  | database
  deriving DecidableEq

structure SsoResult where
  db : AccountDb
  token : JsString
  userId : Nat

variable (crypto : Crypto) (ttl : Nat) (db : AccountDb) (now : Nat)

/-- The account of an identity that is not linked yet, found or created. An empty e-mail
counts as none. -/
def matchAccount (provider : ProviderRow) (identity : Identity) (newId : Nat) : Except SsoError (AccountDb × Nat) :=
  match (identity.email.filter (!·.isEmpty)).bind db.userByEmail with
  | some u => if u.status ≠ .active then .error .accountSuspended else .ok (db,u.id)
  | none =>
    if provider.autoProvision then
      match identity.email.filter (!·.isEmpty) with
      | none => .error .noEmail
      | some email =>
        match db.insertUser ⟨newId,email,identity.name.getD [],none,none,false,.active⟩ with
        | some db => .ok (db,newId)
        | none => .error .database
    else .error .noAccount

def linkAccount (provider : ProviderRow) (subject : JsString) (userId : Nat) : Option AccountDb :=
  (db.insertMember ⟨provider.orgId,userId,provider.defaultRole⟩).bind fun db => db.insertIdentity ⟨provider.id,subject,userId⟩

/-- The transaction of `provisionAndSession`. -/
def provision (provider : ProviderRow) (identity : Identity) (newId : Nat) : Except SsoError (AccountDb × Nat) :=
  match (db.identities.lookup (provider.id,identity.subject)).bind fun i => db.users.lookup i.userId with
  | some u => if u.status ≠ .active then .error .accountSuspended else .ok (db,u.id)
  | none =>
    match matchAccount db provider identity newId with
    | .error e => .error e
    | .ok (db,userId) =>
      match linkAccount db provider identity.subject userId with
      | some db => .ok (db,userId)
      | none => .error .database

def provisionAndSession (provider : ProviderRow) (identity : Identity) (draw : Draw) : Except SsoError SsoResult :=
  match provision db provider identity draw.userId with
  | .error e => .error e
  | .ok (db,userId) =>
    match createSession crypto ttl db now draw.token userId none with
    | none => .error .database
    | some db => .ok ⟨db,draw.token,userId⟩

/-- `completeOidc` and `completeSaml` once the assertion has been found valid. -/
def completeSso (provider : ProviderRow) (a : Assertion) (draw : Draw) : Except SsoError SsoResult :=
  if provider.enabled then provisionAndSession crypto ttl db now provider (identityOf provider a) draw else .error .notFound

end Model

section Matching
variable {crypto : Crypto} {ttl : Nat} {db : AccountDb} {now : Nat} {provider : ProviderRow} {a : Assertion} {draw : Draw}

/-- The IdP asserts the e-mail as verified; SAML has no other way to assert one. -/
def Verified (provider : ProviderRow) (a : Assertion) : Prop :=
  provider.kind = .saml ∨ a.claims.lookup (js "email_verified") = some (.flag true)

/-- The account belongs to the organisation of the provider: by membership or by its domain. -/
def InScope (db : AccountDb) (provider : ProviderRow) (u : UserRow) : Prop :=
  (db.members.lookup (provider.orgId,u.id)).isSome = true ∨ provider.emailDomain.map db.lower = some (db.lower (splitEmail u.email).2)

/-- A session of an account that existed and was not linked goes to a verified e-mail of
an account in the scope of the provider. -/
def SsoSound (crypto : Crypto) (ttl : Nat) (db : AccountDb) (now : Nat) (provider : ProviderRow) (a : Assertion) (draw : Draw) : Prop :=
  ∀ r u, completeSso crypto ttl db now provider a draw = .ok r → db.users.lookup r.userId = some u →
    db.identities.lookup (provider.id,a.subject) = none → Verified provider a ∧ InScope db provider u

/-- An identity that is not linked has the e-mail of an active account out of its reach. -/
def Hijacks (db : AccountDb) (provider : ProviderRow) (a : Assertion) : Prop :=
  provider.enabled = true ∧ db.identities.lookup (provider.id,a.subject) = none ∧
  ∃ email u, (identityOf provider a).email = some email ∧ email ≠ [] ∧ db.userByEmail email = some u ∧ u.status = .active ∧
    ¬(Verified provider a ∧ InScope db provider u)

theorem identityOf_subject : (identityOf provider a).subject = a.subject := by
  rw [identityOf]
  split
  · rfl
  · rfl

theorem matchAccount_ok {identity : Identity} {newId userId : Nat} {db' : AccountDb}
    (h : matchAccount db provider identity newId = .ok (db',userId)) :
    (∃ email u, identity.email = some email ∧ email ≠ [] ∧ db.userByEmail email = some u ∧ u.status = .active ∧ userId = u.id) ∨
    db.users.lookup userId = none := by
  rw [matchAccount] at h
  split at h
  · rename_i u hu
    obtain ⟨email,hemail,hu⟩ := Option.bind_eq_some_iff.mp hu
    obtain ⟨hemail,hne⟩ := Option.filter_eq_some_iff.mp hemail
    split at h
    · simp at h
    · rename_i hactive
      cases h
      exact .inl ⟨email,u,hemail,by simpa using hne,hu,by simpa using hactive,rfl⟩
  · split at h
    · split at h
      · simp at h
      · split at h
        · rename_i hinsert
          cases h
          exact .inr (AccountDb.insertUser_spec hinsert).1
        · simp at h
    · simp at h

/-- How the transaction can end for a subject that is not linked. -/
theorem completeSso_ok {r : SsoResult} (h : completeSso crypto ttl db now provider a draw = .ok r)
    (hunlinked : db.identities.lookup (provider.id,a.subject) = none) :
    provider.enabled = true ∧ ∃ db', matchAccount db provider (identityOf provider a) draw.userId = .ok (db',r.userId) := by
  rw [completeSso] at h
  split at h
  · rename_i henabled
    refine ⟨henabled,?_⟩
    rw [provisionAndSession] at h
    split at h
    · simp at h
    · rename_i db' userId hprovision
      rw [provision,identityOf_subject,hunlinked,Option.bind_none] at hprovision
      dsimp only at hprovision
      split at hprovision
      · simp at hprovision
      · rename_i db₁ userId₁ hmatch
        split at hprovision
        · cases hprovision
          split at h
          · simp at h
          · cases h
            exact ⟨db₁,hmatch⟩
        · simp at hprovision
  · simp at h

theorem ssoSound_of_not_hijacks (hnot : ¬Hijacks db provider a) : SsoSound crypto ttl db now provider a draw := by
  intro r u hr hu hunlinked
  obtain ⟨henabled,db',hmatch⟩ := completeSso_ok hr hunlinked
  rcases matchAccount_ok hmatch with ⟨email,u',hemail,hne,hu',hactive,hid⟩ | hnew
  · rw [hid,AccountDb.lookup_of_userByEmail hu'] at hu
    obtain rfl := Option.some.inj hu
    by_contra hreach
    exact hnot ⟨henabled,hunlinked,email,u',hemail,hne,hu',hactive,hreach⟩
  · simp [hu] at hnew

/-- An account with the e-mail of the identity is linked, whoever it is. -/
theorem completeSso_of_match (ttl now : Nat) {email : JsString} {u : UserRow} (henabled : provider.enabled = true)
    (hunlinked : db.identities.lookup (provider.id,a.subject) = none) (hemail : (identityOf provider a).email = some email)
    (hne : email ≠ []) (hu : db.userByEmail email = some u) (hactive : u.status = .active)
    (htoken : db.sessions.lookup (crypto.sha256 draw.token) = none) :
    ∃ r, completeSso crypto ttl db now provider a draw = .ok r ∧ r.userId = u.id := by
  have hexists : (db.users.lookup u.id).isSome = true := by rw [AccountDb.lookup_of_userByEmail hu]; rfl
  have hmatch : matchAccount db provider (identityOf provider a) draw.userId = .ok (db,u.id) := by
    have hkept : (identityOf provider a).email.filter (!·.isEmpty) = some email :=
      Option.filter_eq_some_iff.mpr ⟨hemail,by simpa using hne⟩
    rw [matchAccount,hkept,Option.bind_some,hu]
    simp [hactive]
  obtain ⟨db₁,hmember,husers,hsessions,hidentities⟩ := db.insertMember_isSome ⟨provider.orgId,u.id,provider.defaultRole⟩ hexists
  obtain ⟨db₂,hidentity,hsessions'⟩ := db₁.insertIdentity_isSome ⟨provider.id,a.subject,u.id⟩ (hidentities ▸ hunlinked) (husers ▸ hexists)
  have hlink : linkAccount db provider a.subject u.id = some db₂ := by
    rw [linkAccount,hmember,Option.bind_some,hidentity]
  have hprovision : provision db provider (identityOf provider a) draw.userId = .ok (db₂,u.id) := by
    rw [provision,identityOf_subject,hunlinked,Option.bind_none]
    dsimp only
    rw [hmatch]
    dsimp only
    rw [hlink]
  have hfresh : db₂.sessions.lookup (crypto.sha256 draw.token) = none := by rw [hsessions',hsessions,htoken]
  obtain ⟨db₃,hdb₃⟩ := createSession_isSome hfresh ttl now u.id none
  refine ⟨⟨db₃,draw.token,u.id⟩,?_,rfl⟩
  rw [completeSso,if_pos henabled,provisionAndSession,hprovision]
  dsimp only
  rw [hdb₃]

/-- SSO links accounts as it should exactly where an identity that is not linked does not have
the e-mail of an active account, or has it verified and of an account in its scope. -/
theorem sso_links_verified (htoken : db.sessions.lookup (crypto.sha256 draw.token) = none) :
    SsoSound crypto ttl db now provider a draw ↔ ¬Hijacks db provider a := by
  constructor
  · rintro hsound ⟨henabled,hunlinked,email,u,hemail,hne,hu,hactive,hreach⟩
    obtain ⟨r,hr,hid⟩ := completeSso_of_match ttl now henabled hunlinked hemail hne hu hactive htoken
    exact hreach (hsound r u hr (hid ▸ AccountDb.lookup_of_userByEmail hu) hunlinked)
  · exact ssoSound_of_not_hijacks

/-- A provider that the admin of organisation 1 has registered. -/
def rogueProvider : ProviderRow := ⟨1,1,.oidc (js "email") (js "name"),true,none,true,.member⟩

def assertEmail (email : String) (verified : Bool) : Assertion :=
  ⟨js "sub",[(js "email",.text (js email)),(js "email_verified",.flag verified)],none,none⟩

theorem sso_member_linked : (completeSso plainCrypto 30 twoOrgsDb 0 rogueProvider (assertEmail "admin@a.b" true) someDraw).isOk = true ∧
    SsoSound plainCrypto 30 twoOrgsDb 0 rogueProvider (assertEmail "admin@a.b" true) someDraw := by
  refine ⟨by decide,(sso_links_verified (by decide)).mpr ?_⟩
  rintro ⟨-,-,email,u,hemail,-,hu,-,hreach⟩
  obtain rfl : js "admin@a.b" = email := Option.some.inj hemail
  have hadmin : twoOrgsDb.userByEmail (js "admin@a.b") =
      some ⟨1,js "admin@a.b",js "Admin",some (js "h:admin"),none,false,.active⟩ := by decide
  obtain rfl := Option.some.inj (hadmin.symm.trans hu)
  exact hreach ⟨.inr (by decide),.inl (by decide)⟩

/-- The provider asserts the e-mail of the owner of organisation 2, not even as verified. -/
theorem sso_hijacks_owner : ∃ r, completeSso plainCrypto 30 twoOrgsDb 0 rogueProvider (assertEmail "boss@c.d" false) someDraw = .ok r ∧
    r.userId = 2 ∧ ¬SsoSound plainCrypto 30 twoOrgsDb 0 rogueProvider (assertEmail "boss@c.d" false) someDraw := by
  have hboss : twoOrgsDb.userByEmail (js "boss@c.d") =
      some ⟨2,js "boss@c.d",js "Boss",some (js "h:boss"),none,false,.active⟩ := by decide
  have htoken : twoOrgsDb.sessions.lookup (plainCrypto.sha256 someDraw.token) = none := by decide
  have hunlinked : twoOrgsDb.identities.lookup (rogueProvider.id,(assertEmail "boss@c.d" false).subject) = none := by decide
  obtain ⟨r,hr,hid⟩ := completeSso_of_match 30 0 rfl hunlinked rfl (by decide) hboss rfl htoken
  refine ⟨r,hr,hid,fun hsound => ?_⟩
  obtain ⟨hverified,-⟩ := hsound r _ hr (hid ▸ AccountDb.lookup_of_userByEmail hboss) hunlinked
  revert hverified
  rw [Verified]
  decide

end Matching
end JustMail.Accounts
