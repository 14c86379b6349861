import JustMail.Foundation.Runs
import JustMail.Accounts.Sso

/-! Calls of `completeOidc`, `completeSaml` and `passkeyAuthVerify` at the same time. Each statement,
each transaction and each answer from outside is one step, and time passes between them. -/
namespace JustMail.Accounts
open Foundation Postfix

/-- What `completeSaml` reads of the configuration of a provider. -/
structure SamlConfig where
  idpIssuer : JsString
  emailAttribute : JsString
  nameAttribute : JsString

structure SsoProviderRow extends ProviderRow where
  saml : SamlConfig

structure FlowRow where
  state : JsString
  providerId : Nat
  codeVerifier : Option JsString
  nonce : Option JsString
  relayTarget : JsString
  expiresAt : Nat

inductive ChallengeKind where
  | register | auth
  deriving DecidableEq

structure ChallengeRow where
  id : Nat
  userId : Option Nat
  kind : ChallengeKind
  challenge : JsString
  expiresAt : Nat

structure CredentialRow where
  id : Nat
  userId : Nat
  credentialId : JsString
  publicKey : List Nat
  counter : Nat
  transports : List JsString

structure LoginDb where
  accounts : AccountDb
  providers : Table fun p : SsoProviderRow => p.id
  flows : Table FlowRow.state
  challenges : Table ChallengeRow.id
  credentials : Table CredentialRow.credentialId

/-- An attribute of an assertion with one value or several. -/
inductive SamlValue where
  | one (value : JsString)
  | many (values : List JsString)

def SamlValue.first : SamlValue → Option JsString
  | .one value => some value
  | .many values => values.head?

structure SamlProfile where
  nameID : Option JsString
  issuer : Option JsString
  attributes : List (JsString × SamlValue)

/-- What logins use from outside. The SAML library accepts a response, which carries a signed
assertion, until the window of the assertion closes, and remembers nothing. -/
structure LoginEnv where
  crypto : Crypto
  ttl : Nat
  defaultRelay : JsString
  validatePostResponse : SsoProviderRow → JsString → Nat → Option SamlProfile
  signed : JsString → JsString
  closesAt : JsString → Nat
  in_window : ∀ provider response now profile, validatePostResponse provider response now = some profile → now ≤ closesAt (signed response)

section Model
variable (env : LoginEnv)

/-- `samlValidateResponse` on a profile, with the check of the issuer that follows it. -/
def samlIdentity (cfg : SamlConfig) (profile : SamlProfile) : Option Identity :=
  let read name := (profile.attributes.lookup name).bind (·.first)
  let email := (read cfg.emailAttribute).or (profile.nameID.filter (AT ∈ ·))
  match (profile.nameID.or email).filter (!·.isEmpty) with
  | none => none
  | some subject =>
    if !cfg.idpIssuer.isEmpty && profile.issuer.any (fun issuer => !issuer.isEmpty && issuer != cfg.idpIssuer) then none
    else some ⟨subject,email,read cfg.nameAttribute⟩

/-- The identity that a response stands for; `none` where `completeSaml` throws, as it does at once for
a provider that has no SAML configuration. -/
def acceptResponse (provider : SsoProviderRow) (samlResponse : JsString) (now : Nat) : Option Identity :=
  match provider.kind with
  | .saml => (env.validatePostResponse provider samlResponse now).bind (samlIdentity provider.saml)
  | .oidc _ _ => none

def loadEnabled (db : LoginDb) (id : Nat) : Option SsoProviderRow := (db.providers.lookup id).filter (·.enabled)

/-- `DELETE FROM sso_login_flows WHERE state = $1`. -/
def deleteFlow (db : LoginDb) (state : JsString) : LoginDb := { db with flows := db.flows.deleteWhere (·.state == state) }

/-- The challenges that the first statement of `passkeyAuthVerify` deletes. -/
def ChallengeRow.pending (id now : Nat) (c : ChallengeRow) : Bool := c.id == id && c.kind == .auth && now < c.expiresAt

def findCredential (db : LoginDb) (c : ChallengeRow) (credentialId : JsString) : Option CredentialRow :=
  (db.credentials.lookup credentialId).filter fun stored => match c.userId with
    | some userId => stored.userId == userId
    | none => (db.accounts.users.lookup stored.userId).any (·.status == .active)

/-- What a login is made with. -/
inductive Artefact where
  | flow (state : JsString)
  | challenge (id : Nat)
  | assertion (signed : JsString)
  deriving DecidableEq

/-- A call, with the answers that it gets from outside: the id_token of `exchangeCode` as far as it
is valid, and the new counter where `verifyAuthentication` succeeds. -/
inductive LoginCall where
  | completeOidc (id : Nat) (state : JsString) (answer : SsoProviderRow → FlowRow → Option Assertion) (draw : Draw)
  | completeSaml (id : Nat) (samlResponse : JsString) (relayState : Option JsString) (draw : Draw)
  | passkeyAuthVerify (challengeId : Nat) (credentialId : Option JsString)
      (answer : ChallengeRow → CredentialRow → Option Nat) (draw : Draw)

def LoginCall.draw : LoginCall → Draw
  | .completeOidc _ _ _ draw | .completeSaml _ _ _ draw | .passkeyAuthVerify _ _ _ draw => draw

/-- What a call that has an artefact has read, and is about to use. -/
inductive LoginWork where
  -- `completeOidc`
  | consumed (flow : FlowRow)
  | exchange (flow : FlowRow) (provider : SsoProviderRow)
  -- `completeSaml`
  | relay (provider : SsoProviderRow) (identity : Identity) (relayState : JsString)
  | relayed (provider : SsoProviderRow) (identity : Identity) (flow : Option FlowRow)
  -- `passkeyAuthVerify`
  | pending (c : ChallengeRow)
  | found (c : ChallengeRow) (stored : CredentialRow)
  | verified (userId credential counter : Nat)
  -- all of them
  | provision (provider : SsoProviderRow) (identity : Identity) (relay : JsString)
  | session (userId : Nat) (relay : Option JsString)

/-- `consumeFlow` compares the expiry after it has deleted the row. -/
def LoginWork.checked : LoginWork → Bool
  | .consumed _ => false
  | _ => true

inductive LoginPhase where
  | started
  | loaded (provider : SsoProviderRow)
  | holding (artefact : Artefact) (expiresAt : Nat) (work : LoginWork)
  | ended

def LoginPhase.artefact : LoginPhase → Option Artefact
  | .holding artefact _ _ => some artefact
  | _ => none

/-- A session, and what it was made with. -/
structure Minted where
  artefact : Artefact
  userId : Nat
  mintedAt : Nat
  relay : Option JsString
  deriving DecidableEq

/-- What becomes of a call that has an artefact: it ends, or goes on with it. -/
def LoginCall.proceed (db : LoginDb) (now : Nat) : LoginCall → LoginWork → LoginDb × Option LoginWork
  | .completeOidc id _ _ _, .consumed flow =>
    if flow.expiresAt < now ∨ flow.providerId ≠ id then (db,none)
    else (db,(loadEnabled db id).map (.exchange flow))
  | .completeOidc _ _ answer _, .exchange flow provider =>
    match provider.kind, answer provider flow with
    | .oidc _ _, some a => (db,some (.provision provider (identityOf provider.toProviderRow a) flow.relayTarget))
    | _, _ => (db,none)
  | .completeSaml _ _ _ _, .relay provider identity relayState =>
    (deleteFlow db relayState,some (.relayed provider identity (db.flows.lookup relayState)))
  | .completeSaml id _ _ _, .relayed provider identity flow =>
    let live := flow.filter fun flow => now ≤ flow.expiresAt ∧ flow.providerId = id
    (db,some (.provision provider identity ((live.map (·.relayTarget)).getD env.defaultRelay)))
  | .passkeyAuthVerify _ credentialId _ _, .pending c =>
    (db,(credentialId.filter (!·.isEmpty)).bind fun credentialId => (findCredential db c credentialId).map (.found c))
  | .passkeyAuthVerify _ _ answer _, .found c stored =>
    (db,(answer c stored).map (.verified (c.userId.getD stored.userId) stored.id))
  | .passkeyAuthVerify _ _ _ _, .verified userId credential counter =>
    ({ db with credentials := db.credentials.updateWhere (·.id == credential) (fun c => { c with counter := counter }) fun _ => rfl },
      some (.session userId none))
  | call, .provision provider identity relay =>
    match Accounts.provision db.accounts provider.toProviderRow identity call.draw.userId with
    | .error _ => (db,none)
    | .ok (accounts,userId) => ({ db with accounts := accounts },some (.session userId (some relay)))
  | _, _ => (db,none)

/-- The next step of a call. -/
def LoginCall.advance (db : LoginDb) (now : Nat) (call : LoginCall) : LoginPhase → LoginDb × LoginPhase × Option Minted
  | .started => match call with
    | .completeOidc _ state _ _ => match db.flows.lookup state with
      | none => (db,.ended,none)
      | some flow => (deleteFlow db state,.holding (.flow state) flow.expiresAt (.consumed flow),none)
    | .completeSaml id _ _ _ => (db,((loadEnabled db id).map LoginPhase.loaded).getD .ended,none)
    | .passkeyAuthVerify challengeId _ _ _ => match (db.challenges.lookup challengeId).filter (·.pending challengeId now) with
      | none => (db,.ended,none)
      | some c => ({ db with challenges := db.challenges.deleteWhere (·.pending challengeId now) },
        .holding (.challenge challengeId) c.expiresAt (.pending c),none)
  | .loaded provider => match call with
    | .completeSaml _ samlResponse relayState _ =>
      match acceptResponse env provider samlResponse now with
      | some identity =>
        (db,.holding (.assertion (env.signed samlResponse)) (env.closesAt (env.signed samlResponse))
          (((relayState.filter (!·.isEmpty)).map (.relay provider identity)).getD (.provision provider identity env.defaultRelay)),none)
      | none => (db,.ended,none)
    | _ => (db,.ended,none)
  | .holding artefact _ (.session userId relay) =>
    match createSession env.crypto env.ttl db.accounts now call.draw.token userId none with
    | none => (db,.ended,none)
    | some accounts => ({ db with accounts := accounts },.ended,some ⟨artefact,userId,now,relay⟩)
  | .holding artefact expiresAt work =>
    let (db,work) := call.proceed env db now work
    (db,(work.map (.holding artefact expiresAt)).getD .ended,none)
  | .ended => (db,.ended,none)

structure LoginState where
  db : LoginDb
  now : Nat
  calls : List (LoginCall × LoginPhase)
  log : List Minted

inductive LoginAction where
  | call (c : LoginCall)
  | advance (i : Nat)
  | wait (millis : Nat)

def loginStep (s : LoginState) : LoginAction → Option LoginState
  | .call c => some { s with calls := s.calls ++ [(c,.started)] }
  | .wait millis => some { s with now := s.now + millis }
  | .advance i => s.calls[i]?.map fun (c,phase) =>
    let (db,phase',minted) := c.advance env s.db s.now phase
    { s with db := db, calls := s.calls.set i (c,phase'), log := s.log ++ minted.toList }

/-- Until when an artefact is good; `none` where it is not there. -/
def LoginDb.expiryOf (db : LoginDb) : Artefact → Option Nat
  | .flow state => (db.flows.lookup state).map (·.expiresAt)
  | .challenge id => (db.challenges.lookup id).map (·.expiresAt)
  | .assertion signed => some (env.closesAt signed)

/-- Each session has an artefact of its own, which was there and had not expired. -/
def SingleUse (start : LoginDb) (log : List Minted) : Prop :=
  log.Pairwise (fun m m' => m.artefact ≠ m'.artefact) ∧
  ∀ m ∈ log, ∃ expiresAt ∈ start.expiryOf env m.artefact, m.mintedAt ≤ expiresAt

/-- The assertion in a response that the step accepts. -/
def LoginCall.presents (now : Nat) : LoginCall → LoginPhase → Option Artefact
  | .completeSaml _ samlResponse _ _, .loaded provider =>
    (acceptResponse env provider samlResponse now).map fun _ => .assertion (env.signed samlResponse)
  | _, _ => none

/-- No call is under way with the artefact, and no session was made with it. -/
def LoginState.Unused (s : LoginState) (a : Artefact) : Prop :=
  (∀ call ∈ s.calls, call.2.artefact ≠ some a) ∧ ∀ m ∈ s.log, m.artefact ≠ a

/-- An artefact that was good when it was checked is still good. -/
def LoginPhase.Lasts (now : Nat) : LoginPhase → Prop
  | .holding _ expiresAt work => work.checked = true → now ≤ expiresAt
  | _ => True

/-- Assertions are presented once, and no artefact expires while a call is under way with it. -/
def PresentsOnce (s : LoginState) : LoginAction → Prop
  | .call _ => True
  | .advance i => ∀ call ∈ s.calls[i]?, ∀ a ∈ call.1.presents env s.now call.2, s.Unused a
  | .wait millis => ∀ call ∈ s.calls, call.2.Lasts (s.now + millis)

end Model

section Steps
variable {env : LoginEnv} {start db db' : LoginDb} {now : Nat} {call : LoginCall} {phase : LoginPhase} {work : LoginWork}
variable {a : Artefact}

/-- What is kept in a table until it is used. -/
def Artefact.stored : Artefact → Bool
  | .assertion _ => false
  | _ => true

def Shrinks (env : LoginEnv) (db db' : LoginDb) : Prop := ∀ a e, db'.expiryOf env a = some e → db.expiryOf env a = some e

/-- The artefact can not be taken again. -/
def Spent (env : LoginEnv) (db : LoginDb) (a : Artefact) : Prop := a.stored = true → db.expiryOf env a = none

theorem Spent.mono (h : Spent env db a) (hshrinks : Shrinks env db db') : Spent env db' a := by
  intro hstored
  cases hexpiry : db'.expiryOf env a with
  | none => rfl
  | some e => simpa [h hstored] using hshrinks a e hexpiry

/-- The expiry of an artefact has been compared, or will be. -/
def LoginWork.Live (now expiresAt : Nat) : LoginWork → Prop
  | .consumed flow => flow.expiresAt = expiresAt
  | _ => now ≤ expiresAt

/-- A call has its artefact from the tables as they were, and alone. -/
def LoginPhase.Sound (env : LoginEnv) (start db : LoginDb) (now : Nat) : LoginPhase → Prop
  | .holding a expiresAt work => start.expiryOf env a = some expiresAt ∧ Spent env db a ∧ work.Live now expiresAt
  | _ => True

theorem LoginPhase.Sound.mono (h : phase.Sound env start db now) (hshrinks : Shrinks env db db') :
    phase.Sound env start db' now := by
  cases phase with
  | holding a expiresAt work => exact ⟨h.1,h.2.1.mono hshrinks,h.2.2⟩
  | _ => trivial

theorem expiryOf_congr (hflows : db'.flows = db.flows) (hchallenges : db'.challenges = db.challenges) (a : Artefact) :
    db'.expiryOf env a = db.expiryOf env a := by
  cases a with
  | flow state => rw [LoginDb.expiryOf,LoginDb.expiryOf,hflows]
  | challenge id => rw [LoginDb.expiryOf,LoginDb.expiryOf,hchallenges]
  | assertion signed => rfl

theorem shrinks_of_eq (hflows : db'.flows = db.flows) (hchallenges : db'.challenges = db.challenges) : Shrinks env db db' := by
  intro a e h
  rwa [expiryOf_congr hflows hchallenges] at h

theorem shrinks_deleteFlow (state : JsString) : Shrinks env db (deleteFlow db state) := by
  intro a e h
  cases a with
  | flow other =>
    obtain ⟨row,hrow,rfl⟩ := Option.map_eq_some_iff.mp h
    rw [deleteFlow,Table.lookup_deleteWhere] at hrow
    exact Option.map_eq_some_iff.mpr ⟨row,(Option.filter_eq_some_iff.mp hrow).1,rfl⟩
  | challenge id => exact h
  | assertion signed => exact h

theorem shrinks_deleteChallenges (p : ChallengeRow → Bool) : Shrinks env db { db with challenges := db.challenges.deleteWhere p } := by
  intro a e h
  cases a with
  | challenge id =>
    obtain ⟨row,hrow,rfl⟩ := Option.map_eq_some_iff.mp h
    rw [Table.lookup_deleteWhere] at hrow
    exact Option.map_eq_some_iff.mpr ⟨row,(Option.filter_eq_some_iff.mp hrow).1,rfl⟩
  | flow state => exact h
  | assertion signed => exact h

/-- A call that goes on has compared the expiry of its artefact. -/
theorem proceed_live (env : LoginEnv) (db : LoginDb) (call : LoginCall) {e : Nat} (hlive : work.Live now e) :
    Shrinks env db (call.proceed env db now work).1 ∧ ∀ w ∈ (call.proceed env db now work).2, w.Live now e := by
  have hidle : Shrinks env db db := fun _ _ h => h
  rw [LoginCall.proceed.eq_def]
  split
  · -- `consumed`
    rename_i flow
    split
    · exact ⟨hidle,by simp⟩
    · rename_i hchecked
      refine ⟨hidle,fun w hw => ?_⟩
      obtain ⟨provider,-,rfl⟩ := Option.map_eq_some_iff.mp hw
      have hexpiry : flow.expiresAt = e := hlive
      exact hexpiry ▸ Nat.le_of_not_lt fun hlate => hchecked (.inl hlate)
  · -- `exchange`
    split
    · refine ⟨hidle,fun w hw => ?_⟩
      cases hw
      exact hlive
    · exact ⟨hidle,by simp⟩
  · -- `relay`
    refine ⟨shrinks_deleteFlow _,fun w hw => ?_⟩
    cases hw
    exact hlive
  · -- `relayed`
    refine ⟨hidle,fun w hw => ?_⟩
    cases hw
    exact hlive
  · -- `pending`
    refine ⟨hidle,fun w hw => ?_⟩
    obtain ⟨credentialId,-,hw⟩ := Option.bind_eq_some_iff.mp hw
    obtain ⟨stored,-,rfl⟩ := Option.map_eq_some_iff.mp hw
    exact hlive
  · -- `found`
    refine ⟨hidle,fun w hw => ?_⟩
    obtain ⟨counter,-,rfl⟩ := Option.map_eq_some_iff.mp hw
    exact hlive
  · -- `verified`
    refine ⟨shrinks_of_eq rfl rfl,fun w hw => ?_⟩
    cases hw
    exact hlive
  · -- `provision`
    split
    · exact ⟨hidle,by simp⟩
    · refine ⟨shrinks_of_eq rfl rfl,fun w hw => ?_⟩
      cases hw
      exact hlive
  · exact ⟨hidle,by simp⟩

/-- What one step of a call does: an artefact that it takes is good and unspent before, a session
that it makes is made with the artefact that it has. -/
structure LoginMoved (env : LoginEnv) (start db : LoginDb) (now : Nat) (call : LoginCall) (phase : LoginPhase)
    (next : LoginDb × LoginPhase × Option Minted) : Prop where
  shrinks : Shrinks env db next.1
  sound : next.2.1.Sound env start next.1 now
  origin : ∀ a ∈ next.2.1.artefact, phase.artefact = some a ∨ ¬Spent env db a ∨ call.presents env now phase = some a
  minted : ∀ m ∈ next.2.2, phase.artefact = some m.artefact ∧ next.2.1.artefact = none ∧ m.mintedAt = now ∧
    ∃ e ∈ start.expiryOf env m.artefact, now ≤ e

theorem loginMoved_ended : LoginMoved env start db now call phase (db,.ended,none) :=
  ⟨fun _ _ h => h,trivial,by simp [LoginPhase.artefact],by simp⟩

/-- A row that is deleted when it is found can not be taken again. -/
theorem loginMoved_takes {e : Nat} (hstart : Shrinks env start db)
    (hshrinks : Shrinks env db db') (hstored : a.stored = true) (hexpiry : db.expiryOf env a = some e) (hgone : db'.expiryOf env a = none)
    (hlive : work.Live now e) : LoginMoved env start db now call phase (db',.holding a e work,none) := by
  refine ⟨hshrinks,⟨hstart a e hexpiry,fun _ => hgone,hlive⟩,fun a' ha' => ?_,by simp⟩
  cases ha'
  exact .inr (.inl fun hspent => by simp [hspent hstored] at hexpiry)

theorem loginMoved_started (hstart : Shrinks env start db) :
    LoginMoved env start db now call .started (call.advance env db now .started) := by
  cases call with
  | completeOidc id state answer draw =>
    rw [LoginCall.advance]
    split
    · exact loginMoved_ended
    · rename_i flow hflow
      refine loginMoved_takes hstart (shrinks_deleteFlow state) rfl (Option.map_eq_some_iff.mpr ⟨flow,hflow,rfl⟩) ?_ rfl
      rw [LoginDb.expiryOf,deleteFlow,Table.lookup_deleteWhere,hflow,Option.filter_some,if_neg (by simp [Table.key_of_lookup hflow])]
      rfl
  | completeSaml id samlResponse relayState draw =>
    rw [LoginCall.advance]
    cases loadEnabled db id with
    | none => exact loginMoved_ended
    | some provider => exact ⟨fun _ _ h => h,trivial,by simp [LoginPhase.artefact],by simp⟩
  | passkeyAuthVerify challengeId credentialId answer draw =>
    rw [LoginCall.advance]
    split
    · exact loginMoved_ended
    · rename_i c hc
      obtain ⟨hrow,hpending⟩ := Option.filter_eq_some_iff.mp hc
      have hlive : now < c.expiresAt := by
        simp only [ChallengeRow.pending,Bool.and_eq_true,decide_eq_true_eq] at hpending
        exact hpending.2
      refine loginMoved_takes hstart (shrinks_deleteChallenges _) rfl (Option.map_eq_some_iff.mpr ⟨c,hrow,rfl⟩) ?_ hlive.le
      rw [LoginDb.expiryOf,Table.lookup_deleteWhere,hrow,Option.filter_some,if_neg (by simp [hpending])]
      rfl

theorem in_window_of_accepted {provider : SsoProviderRow} {samlResponse : JsString} {identity : Identity}
    (h : acceptResponse env provider samlResponse now = some identity) : now ≤ env.closesAt (env.signed samlResponse) := by
  rw [acceptResponse] at h
  split at h
  · obtain ⟨profile,hprofile,-⟩ := Option.bind_eq_some_iff.mp h
    exact env.in_window provider samlResponse now profile hprofile
  · simp at h

theorem loginMoved_loaded {provider : SsoProviderRow} (hstart : Shrinks env start db) :
    LoginMoved env start db now call (.loaded provider) (call.advance env db now (.loaded provider)) := by
  cases call with
  | completeSaml id samlResponse relayState draw =>
    rw [LoginCall.advance]
    split
    · rename_i identity hidentity
      have hwindow := in_window_of_accepted hidentity
      refine ⟨fun _ _ h => h,⟨hstart _ _ rfl,by simp [Spent,Artefact.stored],?_⟩,fun a ha => ?_,by simp⟩
      · cases relayState.filter (!·.isEmpty) with
        | none => exact hwindow
        | some relayState => exact hwindow
      · cases ha
        rw [LoginCall.presents,hidentity]
        exact .inr (.inr rfl)
    · exact loginMoved_ended
  | _ => exact loginMoved_ended

theorem loginMoved_holding {e : Nat}
    (hsound : (LoginPhase.holding a e work).Sound env start db now) :
    LoginMoved env start db now call (.holding a e work) (call.advance env db now (.holding a e work)) := by
  obtain ⟨hexpiry,hspent,hlive⟩ := hsound
  rw [LoginCall.advance.eq_def]
  split
  · rename_i heq
    simp at heq
  · rename_i heq
    simp at heq
  · -- the session
    rename_i heq
    cases heq
    split
    · exact loginMoved_ended
    · refine ⟨shrinks_of_eq rfl rfl,trivial,by simp [LoginPhase.artefact],fun m hm => ?_⟩
      cases hm
      exact ⟨rfl,rfl,rfl,e,hexpiry,hlive⟩
  · rename_i heq
    cases heq
    obtain ⟨hshrinks,hnext⟩ := proceed_live env db call hlive
    cases hwork : (call.proceed env db now work).2 with
    | none => 
      dsimp only
      rw [hwork]
      exact ⟨hshrinks,trivial,by simp [LoginPhase.artefact],by simp⟩
    | some w =>
      dsimp only
      rw [hwork]
      exact ⟨hshrinks,⟨hexpiry,hspent.mono hshrinks,hnext w hwork⟩,fun a ha => .inl ha,by simp⟩
  · rename_i heq
    simp at heq

theorem loginMoved_call (hstart : Shrinks env start db) (hsound : phase.Sound env start db now) :
    LoginMoved env start db now call phase (call.advance env db now phase) := by
  cases phase with
  | started => exact loginMoved_started hstart
  | loaded provider => exact loginMoved_loaded hstart
  | holding a e work => exact loginMoved_holding hsound
  | ended => exact loginMoved_ended

end Steps

section Runs
variable {env : LoginEnv} {start : LoginDb} {s t : LoginState}

def LoginState.held (s : LoginState) (i : Nat) : Option Artefact := s.calls[i]?.bind (·.2.artefact)

structure LoginsOrdered (env : LoginEnv) (start : LoginDb) (s : LoginState) : Prop where
  shrinks : Shrinks env start s.db
  sound : ∀ call ∈ s.calls, call.2.Sound env start s.db s.now
  apart : ∀ i j a, s.held i = some a → s.held j = some a → i = j
  spent : ∀ m ∈ s.log, Spent env s.db m.artefact ∧ ∀ i, s.held i ≠ some m.artefact
  once : SingleUse env start s.log

theorem held_eq {i : Nat} {call : LoginCall × LoginPhase} (h : s.calls[i]? = some call) : s.held i = call.2.artefact := by
  rw [LoginState.held,h,Option.bind_some]

/-- What a step takes was unused. -/
theorem unused_of_taken {call : LoginCall × LoginPhase} {a : Artefact} (h : LoginsOrdered env start s)
    (hallowed : ∀ a ∈ call.1.presents env s.now call.2, s.Unused a)
    (htaken : ¬Spent env s.db a ∨ call.1.presents env s.now call.2 = some a) :
    (∀ i, s.held i ≠ some a) ∧ ∀ m ∈ s.log, m.artefact ≠ a := by
  rcases htaken with hunspent | hpresents
  · refine ⟨fun i hheld => ?_,fun m hm heq => hunspent (heq ▸ (h.spent m hm).1)⟩
    obtain ⟨⟨c,phase⟩,hcall,hartefact⟩ := Option.bind_eq_some_iff.mp hheld
    have hsound := h.sound _ (List.mem_of_getElem? hcall)
    cases phase with
    | holding a' e work =>
      cases hartefact
      exact hunspent hsound.2.1
    | _ => simp [LoginPhase.artefact] at hartefact
  · obtain ⟨hcalls,hlog⟩ := hallowed a hpresents
    refine ⟨fun i hheld => ?_,hlog⟩
    obtain ⟨call',hcall',hartefact⟩ := Option.bind_eq_some_iff.mp hheld
    exact hcalls call' (List.mem_of_getElem? hcall') hartefact

section Advance
variable {i : Nat} {c : LoginCall} {phase phase' : LoginPhase} {db : LoginDb} {minted : Option Minted} {a : Artefact}

/-- The state after a step of call `i`. -/
def LoginState.moved (s : LoginState) (i : Nat) (c : LoginCall) (db : LoginDb) (phase : LoginPhase)
    (minted : Option Minted) : LoginState :=
  { s with db := db, calls := s.calls.set i (c,phase), log := s.log ++ minted.toList }

theorem held_moved {j : Nat} (hcall : s.calls[i]? = some (c,phase)) (h : (s.moved i c db phase' minted).held j = some a) :
    (j = i ∧ phase'.artefact = some a) ∨ (j ≠ i ∧ s.held j = some a) := by
  by_cases hij : j = i
  · obtain ⟨call,hset,hartefact⟩ := Option.bind_eq_some_iff.mp h
    subst hij
    rw [LoginState.moved,List.getElem?_set_self',hcall] at hset
    cases hset
    exact .inl ⟨rfl,hartefact⟩
  · rw [LoginState.held,LoginState.moved,List.getElem?_set_ne (Ne.symm hij)] at h
    exact .inr ⟨hij,h⟩

variable (h : LoginsOrdered env start s) (hallowed : PresentsOnce env s (.advance i)) (hcall : s.calls[i]? = some (c,phase))
  (hmoved : LoginMoved env start s.db s.now c phase (db,phase',minted))
include h hcall hmoved

/-- A call that makes a session gives up the artefact, which nobody else has. -/
theorem spent_minted {m : Minted} (hm : m ∈ minted) :
    Spent env db m.artefact ∧ ∀ j, (s.moved i c db phase' minted).held j ≠ some m.artefact := by
  obtain ⟨hhad,hnone,-⟩ := hmoved.minted m hm
  refine ⟨?_,fun j hj => ?_⟩
  · have hsound := h.sound _ (List.mem_of_getElem? hcall)
    cases phase with
    | holding a e work =>
      cases hhad
      exact hsound.2.1.mono hmoved.shrinks
    | _ => simp [LoginPhase.artefact] at hhad
  · rcases held_moved hcall hj with ⟨-,hj⟩ | ⟨hji,hj⟩
    · simp [show phase'.artefact = none from hnone] at hj
    · exact hji (h.apart j i _ hj ((held_eq hcall).trans hhad))

theorem singleUse_moved : SingleUse env start (s.log ++ minted.toList) := by
  refine ⟨List.pairwise_append.mpr ⟨h.once.1,?_,fun m hm m' hm' heq => ?_⟩,fun m hm => ?_⟩
  · cases minted with
    | none => exact .nil
    | some m => exact List.pairwise_singleton ..
  · obtain ⟨hhad,-⟩ := hmoved.minted m' (Option.mem_toList.mp hm')
    exact (h.spent m hm).2 i ((held_eq hcall).trans (heq ▸ hhad))
  · rcases List.mem_append.mp hm with hm | hm
    · exact h.once.2 m hm
    · obtain ⟨-,-,hminted,hexpiry⟩ := hmoved.minted m (Option.mem_toList.mp hm)
      rw [hminted]
      exact hexpiry

include hallowed

/-- What the call has it had before, or nobody has and no session was made with. -/
theorem taken_moved (ha : phase'.artefact = some a) :
    s.held i = some a ∨ (∀ j, s.held j ≠ some a) ∧ ∀ m ∈ s.log, m.artefact ≠ a := by
  rcases hmoved.origin a ha with hkept | htaken
  · exact .inl ((held_eq hcall).trans hkept)
  · exact .inr (unused_of_taken h (hallowed _ hcall) htaken)

theorem apart_moved {j k : Nat} (hj : (s.moved i c db phase' minted).held j = some a)
    (hk : (s.moved i c db phase' minted).held k = some a) : j = k := by
  have hother : ∀ j, j ≠ i → phase'.artefact = some a → s.held j ≠ some a := by
    intro j hji ha hj
    rcases taken_moved h hallowed hcall hmoved ha with hhad | ⟨hfree,-⟩
    · exact hji (h.apart j i a hj hhad)
    · exact hfree j hj
  rcases held_moved hcall hj with ⟨hji,ha⟩ | ⟨hji,hj⟩
  · rcases held_moved hcall hk with ⟨hki,-⟩ | ⟨hki,hk⟩
    · rw [hji,hki]
    · exact absurd hk (hother k hki ha)
  · rcases held_moved hcall hk with ⟨-,ha⟩ | ⟨-,hk⟩
    · exact absurd hj (hother j hji ha)
    · exact h.apart j k a hj hk

theorem spent_moved {m : Minted} (hm : m ∈ s.log ++ minted.toList) :
    Spent env db m.artefact ∧ ∀ j, (s.moved i c db phase' minted).held j ≠ some m.artefact := by
  rcases List.mem_append.mp hm with hm | hm
  · obtain ⟨hspent,hfree⟩ := h.spent m hm
    refine ⟨hspent.mono hmoved.shrinks,fun j hj => ?_⟩
    rcases held_moved hcall hj with ⟨-,hj⟩ | ⟨-,hj⟩
    · rcases taken_moved h hallowed hcall hmoved hj with hhad | ⟨-,hunused⟩
      · exact hfree i hhad
      · exact hunused m hm rfl
    · exact hfree j hj
  · exact spent_minted h hcall hmoved (Option.mem_toList.mp hm)

theorem loginsOrdered_moved : LoginsOrdered env start (s.moved i c db phase' minted) where
  shrinks a e ha := h.shrinks a e (hmoved.shrinks a e ha)
  sound call hmem := by
    rcases List.mem_or_eq_of_mem_set hmem with hmem | rfl
    · exact (h.sound call hmem).mono hmoved.shrinks
    · exact hmoved.sound
  apart _ _ _ hj hk := apart_moved h hallowed hcall hmoved hj hk
  spent _ hm := spent_moved h hallowed hcall hmoved hm
  once := singleUse_moved h hcall hmoved

end Advance

/-- Time passes, and every artefact that has been checked is still good. -/
theorem LoginPhase.Sound.wait {phase : LoginPhase} {db : LoginDb} {now later : Nat} (h : phase.Sound env start db now)
    (hlasts : phase.Lasts later) : phase.Sound env start db later := by
  cases phase with
  | holding a e work =>
    refine ⟨h.1,h.2.1,?_⟩
    cases work with
    | consumed flow => exact h.2.2
    | _ => exact hlasts rfl
  | _ => trivial

theorem loginsOrdered_step {a : LoginAction} (h : LoginsOrdered env start s) (hallowed : PresentsOnce env s a)
    (hstep : loginStep env s a = some t) : LoginsOrdered env start t := by
  cases a with
  | call c =>
    cases hstep
    have hheld : ∀ i, ({ s with calls := s.calls ++ [(c,.started)] } : LoginState).held i = s.held i := by
      intro i
      rw [LoginState.held,LoginState.held,List.getElem?_append]
      split
      · rfl
      · rename_i hlong
        rw [List.getElem?_eq_none (Nat.le_of_not_lt hlong)]
        cases hnew : [(c,LoginPhase.started)][i - s.calls.length]? with
        | none => rfl
        | some call =>
          obtain rfl := List.mem_singleton.mp (List.mem_of_getElem? hnew)
          rfl
    refine ⟨h.shrinks,fun call hcall => ?_,fun i j a hi hj => ?_,fun m hm => ?_,h.once⟩
    · rcases List.mem_append.mp hcall with hcall | hcall
      · exact h.sound call hcall
      · rw [List.mem_singleton.mp hcall]
        trivial
    · rw [hheld] at hi hj
      exact h.apart i j a hi hj
    · refine ⟨(h.spent m hm).1,fun i => ?_⟩
      rw [hheld]
      exact (h.spent m hm).2 i
  | wait millis =>
    cases hstep
    exact ⟨h.shrinks,fun call hcall => (h.sound call hcall).wait (hallowed call hcall),h.apart,h.spent,h.once⟩
  | advance i =>
    obtain ⟨⟨c,phase⟩,hcall,rfl⟩ := Option.map_eq_some_iff.mp hstep
    exact loginsOrdered_moved h hallowed hcall (loginMoved_call h.shrinks (h.sound _ (List.mem_of_getElem? hcall)))

/-- Whatever the order of the steps, each session has an artefact of its own that had not expired, as
long as assertions are presented once and none expires on the way. -/
theorem artefacts_single_use {now : Nat} (hrun : Run (loginStep env) (PresentsOnce env) ⟨start,now,[],[]⟩ s) :
    SingleUse env start s.log := by
  have hempty : ∀ i, (⟨start,now,[],[]⟩ : LoginState).held i = none := fun i => rfl
  have hstart : LoginsOrdered env start ⟨start,now,[],[]⟩ :=
    ⟨fun _ _ h => h,by simp,fun i j a hi => by simp [hempty] at hi,by simp,⟨.nil,by simp⟩⟩
  exact (hrun.invariant (fun _ _ _ h hallowed hstep => loginsOrdered_step h hallowed hstep) hstart).once

instance (s : LoginState) (a : Artefact) : Decidable (s.Unused a) :=
  inferInstanceAs (Decidable ((∀ call ∈ s.calls, call.2.artefact ≠ some a) ∧ ∀ m ∈ s.log, m.artefact ≠ a))

instance (now : Nat) : (phase : LoginPhase) → Decidable (phase.Lasts now)
  | .holding _ expiresAt work => inferInstanceAs (Decidable (work.checked = true → now ≤ expiresAt))
  | .started | .loaded _ | .ended => inferInstanceAs (Decidable True)

instance (env : LoginEnv) (s : LoginState) : (a : LoginAction) → Decidable (PresentsOnce env s a)
  | .call _ => inferInstanceAs (Decidable True)
  | .advance i => inferInstanceAs (Decidable (∀ call ∈ s.calls[i]?, ∀ a ∈ call.1.presents env s.now call.2, s.Unused a))
  | .wait millis => inferInstanceAs (Decidable (∀ call ∈ s.calls, call.2.Lasts (s.now + millis)))

/-- A SAML library for which every response before the minute is over asserts the admin of
organisation 1. -/
def minuteEnv : LoginEnv where
  crypto := plainCrypto
  ttl := 30
  defaultRelay := js "https://mail"
  validatePostResponse _ _ now := if now ≤ 60000 then some ⟨some (js "admin@a.b"),some (js "idp"),[]⟩ else none
  signed response := response
  closesAt _ := 60000
  in_window provider response now profile h := by
    by_contra hlate
    simp [hlate] at h

def samlProvider : SsoProviderRow where
  toProviderRow := ⟨2,1,.saml,true,none,false,.member⟩
  saml := ⟨js "idp",js "email",js "displayName"⟩

/-- One OIDC flow, one challenge of the admin's passkey, and nothing under way. -/
def loginStart : LoginState where
  db :=
    { accounts := twoOrgsDb
      providers := ⟨[⟨rogueProvider,⟨[],[],[]⟩⟩,samlProvider],by decide⟩
      flows := ⟨[⟨js "state",1,none,none,js "https://admin",500⟩],by decide⟩
      challenges := ⟨[⟨1,some 1,.auth,js "c",400⟩],by decide⟩
      credentials := ⟨[⟨1,1,js "key",[],0,[]⟩],by decide⟩ }
  now := 0
  calls := []
  log := []

def postResponse (token : String) : LoginCall := .completeSaml 2 (js "response") none ⟨js token,9⟩

def returnState (token : String) : LoginCall := .completeOidc 1 (js "state") (fun _ _ => some (assertEmail "admin@a.b" true)) ⟨js token,9⟩

def signChallenge (token : String) : LoginCall := .passkeyAuthVerify 1 (some (js "key")) (fun _ _ => some 1) ⟨js token,9⟩

/-- Five logins at the same time: of two with the flow and of two with the challenge one gets a session. -/
theorem logins_share_no_artefact : ∃ s, Run (loginStep minuteEnv) (PresentsOnce minuteEnv) loginStart s ∧
    s.log = [⟨.flow (js "state"),1,300,some (js "https://admin")⟩,⟨.challenge 1,1,300,none⟩,
      ⟨.assertion (js "response"),1,300,some (js "https://mail")⟩] ∧ SingleUse minuteEnv loginStart.db s.log := by
  have hactions : (runActions (loginStep minuteEnv) (PresentsOnce minuteEnv) loginStart
      [.call (returnState "a"),.call (returnState "b"),.call (signChallenge "c"),.call (signChallenge "d"),.call (postResponse "e"),
        .advance 0,.advance 1,.advance 2,.advance 3,.advance 4,.wait 300,.advance 0,.advance 2,.advance 4,.advance 0,.advance 2,
        .advance 4,.advance 0,.advance 2,.advance 0,.advance 2,.advance 4]).map (·.log) =
      some [⟨.flow (js "state"),1,300,some (js "https://admin")⟩,⟨.challenge 1,1,300,none⟩,
        ⟨.assertion (js "response"),1,300,some (js "https://mail")⟩] := by decide +kernel
  obtain ⟨s,hs,hlog⟩ := Option.map_eq_some_iff.mp hactions
  have hrun := Run.of_actions hs
  exact ⟨s,hrun,hlog,artefacts_single_use hrun⟩

/-- The same response is posted again, and gives a second session. -/
theorem response_replayed : ∃ s, Run (loginStep minuteEnv) (fun _ _ => True) loginStart s ∧
    s.log = [⟨.assertion (js "response"),1,0,some (js "https://mail")⟩,⟨.assertion (js "response"),1,7,some (js "https://mail")⟩] ∧
    ¬SingleUse minuteEnv loginStart.db s.log := by
  have hactions : (runActions (loginStep minuteEnv) (fun _ _ => True) loginStart
      [.call (postResponse "e"),.advance 0,.advance 0,.advance 0,.advance 0,.wait 7,
        .call (postResponse "f"),.advance 1,.advance 1,.advance 1,.advance 1]).map (·.log) =
      some [⟨.assertion (js "response"),1,0,some (js "https://mail")⟩,⟨.assertion (js "response"),1,7,some (js "https://mail")⟩] := by
    decide +kernel
  obtain ⟨s,hs,hlog⟩ := Option.map_eq_some_iff.mp hactions
  refine ⟨s,.of_actions hs,hlog,fun honce => ?_⟩
  rw [hlog] at honce
  exact List.rel_of_pairwise_cons honce.1 List.mem_cons_self rfl

end Runs
end JustMail.Accounts
