import JustMail.Accounts.Directory
import JustMail.Foundation.Decimal
import JustMail.Foundation.Runs
import JustMail.Foundation.Transactions

/-! `bootstrap` of `AuthService`, which makes the first owner of an instance. Any number of calls run
at the same time, next to other transactions; a lock of their transaction lets one of them at a time
count the users and insert its own. -/
namespace JustMail.Accounts
open Foundation Postfix

section Tables

structure OrgRow where
  id : Nat
  name : JsString
  slug : JsString
  deriving DecidableEq

/-- The rows that `bootstrap` inserts into, with the unique constraints on the slugs and addresses. -/
structure TenantDb where
  collation : Collation := .ascii
  organizations : Table OrgRow.id
  slugs : (organizations.rows.map (·.slug)).Nodup
  users : Table UserRow.id
  emails : (users.rows.map fun u => collation.lower u.email).Nodup
  members : Table MemberRow.key

inductive TenantInsert where
  | organization (org : OrgRow)
  | user (user : UserRow)
  | member (member : MemberRow)
  deriving DecidableEq

/-- `text` columns hold no NUL. -/
def isStorable (s : JsString) : Bool := s.all (· != 0)

namespace TenantDb
variable (db : TenantDb)

/-- `INSERT INTO organizations`; `none` where a constraint is violated. -/
def insertOrganization (org : OrgRow) : Option TenantDb :=
  if h : db.organizations.lookup org.id = none ∧ (∀ o ∈ db.organizations.rows, o.slug ≠ org.slug) ∧ isStorable org.name = true then
    some { db with organizations := db.organizations.insert org h.1, slugs := Table.nodup_insert db.slugs h.2.1 }
  else none

/-- `INSERT INTO users`. -/
def insertUser (user : UserRow) : Option TenantDb :=
  if h : db.users.lookup user.id = none ∧ (∀ u ∈ db.users.rows, db.collation.lower u.email ≠ db.collation.lower user.email) ∧
    isStorable user.name = true then
    some { db with users := db.users.insert user h.1, emails := Table.nodup_insert db.emails h.2.1 }
  else none

/-- `INSERT INTO org_members`. -/
def insertMember (member : MemberRow) : Option TenantDb :=
  if h : db.members.lookup member.key = none ∧ (db.organizations.lookup member.orgId).isSome = true ∧
      (db.users.lookup member.userId).isSome = true then
    some { db with members := db.members.insert member h.1 }
  else none

def insert : TenantInsert → Option TenantDb
  | .organization org => db.insertOrganization org
  | .user user => db.insertUser user
  | .member member => db.insertMember member

/-- The tables with the rows of a transaction. -/
def land (inserts : List TenantInsert) : Option TenantDb := inserts.foldlM insert db

/-- No user is gone. -/
def KeepsUsers (db' : TenantDb) : Prop := ∀ u ∈ db.users.rows, (db'.users.lookup u.id).isSome = true

instance (db' : TenantDb) : Decidable (db.KeepsUsers db') := inferInstanceAs (Decidable (∀ u ∈ db.users.rows, _))

end TenantDb

end Tables

section Model

/-- What `bootstrap` uses of its surroundings: hashes, the Unicode tables behind `toLowerCase` and
`normalize("NFKD")`, and which texts the type `inet` takes. -/
structure Surroundings where
  crypto : Crypto
  text : CaseMapping
  nfkd : JsString → JsString
  isInet : JsString → Bool

/-- The process that a call comes to. Each has a generated token of its own. -/
structure BootstrapConfig where
  production : Bool
  bootstrapToken : Option JsString
  generatedBootstrapToken : JsString

structure BootstrapRequest where
  email : JsString
  password : JsString
  name : JsString
  orgName : JsString

/-- What is drawn at random: the salt, the bytes of a slug, the ids of the rows, and the session token. -/
structure BootstrapDraw where
  salt : JsString
  suffix : JsString
  orgId : Nat
  userId : Nat
  token : JsString

structure BootstrapCall where
  config : BootstrapConfig
  req : BootstrapRequest
  ip : Option JsString
  userAgent : Option JsString
  providedToken : Option JsString
  draw : BootstrapDraw

inductive BootstrapError where
  | invalidToken
  | alreadyBootstrapped
  | database
  | sessionRefused
  deriving DecidableEq

def BootstrapError.status : BootstrapError → Nat
  | .invalidToken => 401
  | .alreadyBootstrapped => 403
  | .database | .sessionRefused => 500

def BootstrapError.title : BootstrapError → JsString
  | .invalidToken => js "Invalid bootstrap token"
  | .alreadyBootstrapped => js "Already bootstrapped"
  | .database | .sessionRefused => js "Internal Server Error"

def BootstrapError.detail : BootstrapError → Option JsString
  | .invalidToken => some (js "Bootstrapping requires the one-time token from the server logs (X-Bootstrap-Token).")
  | .alreadyBootstrapped => some (js "An account already exists; log in instead.")
  | .database | .sessionRefused => none

/-- `BOOTSTRAP_ADVISORY_LOCK`. -/
def BOOTSTRAP_ADVISORY_LOCK : Nat := 0x6a6d6273

def DASH : CodeUnit := unit '-'

/-- `.replace(/[^a-z0-9]+/g, "-")`; `inRun` says that the unit before has been replaced. -/
def dashRuns (inRun : Bool) : JsString → JsString
  | [] => []
  | c :: s =>
    if (97 ≤ c && c ≤ 122) || isDigit c then c :: dashRuns false s
    else if inRun then dashRuns true s
    else DASH :: dashRuns true s

variable (env : Surroundings)

def slugify (name suffix : JsString) : JsString :=
  let dashed := dashRuns false (env.nfkd (env.text.toLowerCase name))
  let base := ((dashed.dropWhile (· == DASH)).rdropWhile (· == DASH)).take 48
  if base.isEmpty then js "org-" ++ suffix else base

namespace BootstrapCall
variable (call : BootstrapCall)

def bootstrapTokenRequired : Bool := call.config.production || call.config.bootstrapToken.any (!·.isEmpty)

def bootstrapTokenMatches : Bool :=
  env.crypto.sha256 (call.providedToken.getD []) ==
    env.crypto.sha256 (call.config.bootstrapToken.getD call.config.generatedBootstrapToken)

/-- The rows of the transaction, in the order in which they are inserted. -/
def inserts : List TenantInsert :=
  [.organization ⟨call.draw.orgId,call.req.orgName,slugify env call.req.orgName call.draw.suffix⟩,
   .user ⟨call.draw.userId,call.req.email,call.req.name,some (env.crypto.argon2Hash call.draw.salt call.req.password),none,false,.active⟩,
   .member ⟨call.draw.orgId,call.draw.userId,.owner⟩]

end BootstrapCall

/-- How far a call is. `since` is the number of commits there were when it counted the users. -/
inductive BootstrapPhase where
  | started
  | waiting
  | locked
  | writing (since : Nat) (done todo : List TenantInsert)
  | committed
  | ended (result : Except BootstrapError Unit)

/-- The lock is with the call. -/
def BootstrapPhase.holds : BootstrapPhase → Bool
  | .locked | .writing _ _ _ => true
  | _ => false

/-- The rows of the call are in the tables. -/
def BootstrapPhase.afterCommit : BootstrapPhase → Bool
  | .committed | .ended (.ok _) | .ended (.error .sessionRefused) => true
  | _ => false

/-- What the caller sees. -/
def BootstrapPhase.result : BootstrapPhase → Option (Except BootstrapError Unit)
  | .ended result => some result
  | _ => none

structure BootstrapTx where
  call : BootstrapCall
  phase : BootstrapPhase

/-- A transaction of `bootstrap`, by the call and its count of the users, or another one. -/
inductive Committer where
  | bootstrap (i since : Nat)
  | other
  deriving DecidableEq

def Committer.isBootstrap : Committer → Bool
  | .bootstrap _ _ => true
  | .other => false

/-- A commit, with the tables before and after it. -/
structure Commit where
  committer : Committer
  before : TenantDb
  after : TenantDb

structure BootstrapState where
  db : TenantDb
  sessions : Table SessionRow.tokenHash
  locks : Locks Nat Nat
  calls : List BootstrapTx
  log : List Commit

/-- A call comes in or takes its next step, or another transaction commits. -/
inductive BootstrapAction where
  | call (call : BootstrapCall)
  | advance (i : Nat) (now : Nat)
  | other (db : TenantDb) (sessions : Table SessionRow.tokenHash)

namespace BootstrapState

def initial (db : TenantDb) (sessions : Table SessionRow.tokenHash) : BootstrapState := ⟨db,sessions,.free,[],[]⟩

variable (ttl : Nat) (s : BootstrapState) (i : Nat) (call : BootstrapCall)

def setPhase (phase : BootstrapPhase) : BootstrapState := { s with calls := s.calls.set i ⟨call,phase⟩ }

/-- `ROLLBACK`: nothing of the transaction stays, its lock included. -/
def rollback (e : BootstrapError) : BootstrapState := { s.setPhase i call (.ended (.error e)) with locks := s.locks.releaseAll i }

def commit (since : Nat) (db : TenantDb) : BootstrapState :=
  { s.setPhase i call .committed with db := db, locks := s.locks.releaseAll i, log := s.log ++ [⟨.bootstrap i since,s.db,db⟩] }

/-- `createSession`. -/
def createSession (now : Nat) : BootstrapState :=
  let row : SessionRow := ⟨env.crypto.sha256 call.draw.token,call.draw.userId,now + ttl,none⟩
  if h : s.sessions.lookup row.tokenHash = none ∧ (s.db.users.lookup row.userId).isSome = true ∧
      call.ip.all env.isInet = true ∧ call.userAgent.all isStorable = true then
    { s.setPhase i call (.ended (.ok ())) with sessions := s.sessions.insert row h.1 }
  else s.setPhase i call (.ended (.error .sessionRefused))

/-- The next statement of a call, with the code up to the one after it. -/
def advance (now : Nat) : BootstrapPhase → Option BootstrapState
  | .started =>
    some (s.setPhase i call (if call.bootstrapTokenRequired &&
      !call.bootstrapTokenMatches env then .ended (.error .invalidToken) else .waiting))
  | .waiting => (s.locks.tryLock i BOOTSTRAP_ADVISORY_LOCK).map fun locks => { s.setPhase i call .locked with locks := locks }
  | .locked =>
    some (if 0 < s.db.users.rows.length then s.rollback i call .alreadyBootstrapped
      else s.setPhase i call (.writing s.log.length [] (call.inserts env)))
  | .writing since done (w :: todo) =>
    some (if (s.db.land (done ++ [w])).isSome then s.setPhase i call (.writing since (done ++ [w]) todo) else s.rollback i call .database)
  | .writing since done [] => some ((s.db.land done).elim (s.rollback i call .database) (s.commit i call since))
  | .committed => some (s.createSession env ttl i call now)
  | .ended _ => none

end BootstrapState

variable (ttl : Nat)

def bootstrapStep (s : BootstrapState) : BootstrapAction → Option BootstrapState
  | .call call => some { s with calls := s.calls ++ [⟨call,.started⟩] }
  | .advance i now => s.calls[i]?.bind fun tx => s.advance env ttl i tx.call now tx.phase
  | .other db sessions => some { s with db := db, sessions := sessions, log := s.log ++ [⟨.other,s.db,db⟩] }

/-- Nothing deletes users. -/
def BootstrapAllowed (s : BootstrapState) : BootstrapAction → Prop
  | .other db _ => s.db.KeepsUsers db
  | _ => True

instance (s : BootstrapState) : (a : BootstrapAction) → Decidable (BootstrapAllowed s a)
  | .other db _ => inferInstanceAs (Decidable (s.db.KeepsUsers db))
  | .call _ | .advance _ _ => .isTrue trivial

/-- The tables have come from `start` by the commits of the log alone. -/
inductive Committed (start : TenantDb) : List Commit → TenantDb → Prop where
  | nil : Committed start [] start
  | snoc {log : List Commit} {c : Commit} : Committed start log c.before → Committed start (log ++ [c]) c.after

/-- One `bootstrap` commits at most. None does that has counted the users after one was committed. The
tables are those that the logged commits made, of which a call that fails has none, except for one
whose session is refused. -/
structure BootstrapOnce (start : TenantDb) (s : BootstrapState) : Prop where
  once : (s.log.filter (·.committer.isBootstrap)).length ≤ 1
  early : ∀ c ∈ s.log, ∀ i since, c.committer = .bootstrap i since →
    start.users.rows = [] ∧ ∀ c' ∈ s.log.take since, c'.after.users.rows = []
  committed : Committed start s.log s.db
  failed : ∀ (i : Nat) (call : BootstrapCall) (e : BootstrapError), s.calls[i]? = some ⟨call,.ended (.error e)⟩ → e ≠ .sessionRefused →
    ∀ c ∈ s.log, ∀ since, c.committer ≠ .bootstrap i since

end Model

section Inserts
variable {db db' : TenantDb} {w : TenantInsert} {ws : List TenantInsert}

theorem users_of_insert (h : db.insert w = some db') :
    db.users.rows ⊆ db'.users.rows ∧ ∀ user, w = .user user → user ∈ db'.users.rows := by
  cases w with
  | organization org =>
    rw [TenantDb.insert,TenantDb.insertOrganization] at h
    split at h
    · cases h
      exact ⟨fun _ hu => hu,by simp⟩
    · simp at h
  | user user =>
    rw [TenantDb.insert,TenantDb.insertUser] at h
    split at h
    · cases h
      refine ⟨List.subset_append_left _ _,fun user' heq => ?_⟩
      cases heq
      exact List.mem_append_right _ (List.mem_singleton_self _)
    · simp at h
  | member member =>
    rw [TenantDb.insert,TenantDb.insertMember] at h
    split at h
    · cases h
      exact ⟨fun _ hu => hu,by simp⟩
    · simp at h

/-- Nobody is gone, and whoever has been inserted is there. -/
theorem users_of_land (h : db.land ws = some db') :
    db.users.rows ⊆ db'.users.rows ∧ ∀ user, .user user ∈ ws → user ∈ db'.users.rows := by
  induction ws generalizing db with
  | nil =>
    cases h
    exact ⟨fun _ hu => hu,by simp⟩
  | cons w ws ih =>
    rw [TenantDb.land,List.foldlM_cons] at h
    obtain ⟨mid,hmid,hrest⟩ := Option.bind_eq_some_iff.mp h
    obtain ⟨hsub,hnew⟩ := users_of_insert hmid
    obtain ⟨hsub',hnew'⟩ := ih hrest
    refine ⟨fun _ hu => hsub' (hsub hu),fun user huser => ?_⟩
    rcases List.mem_cons.mp huser with heq | hmem
    · exact hsub' (hnew user heq.symm)
    · exact hnew' user hmem

theorem users_of_keepsUsers (h : db.KeepsUsers db') (hdb' : db'.users.rows = []) : db.users.rows = [] := by
  refine List.eq_nil_iff_forall_not_mem.mpr fun u hu => ?_
  have hkept := h u hu
  simp [Table.lookup,hdb'] at hkept

end Inserts

section Steps
variable {env : Surroundings} {ttl : Nat} {s t : BootstrapState} {a : BootstrapAction}

/-- What a step can do. -/
inductive BootstrapMoved (env : Surroundings) (s : BootstrapState) : BootstrapState → Prop where
  | call (call : BootstrapCall) : BootstrapMoved env s { s with calls := s.calls ++ [⟨call,.started⟩] }
  | outside {i : Nat} {call : BootstrapCall} {phase : BootstrapPhase} (phase' : BootstrapPhase)
      (sessions : Table SessionRow.tokenHash) (ht : s.calls[i]? = some ⟨call,phase⟩) (hholds : phase.holds = false)
      (hholds' : phase'.holds = false) (hafter : phase'.afterCommit = phase.afterCommit) :
      BootstrapMoved env s { s.setPhase i call phase' with sessions := sessions }
  | lock {i : Nat} {call : BootstrapCall} {locks : Locks Nat Nat} (ht : s.calls[i]? = some ⟨call,.waiting⟩)
      (hlocks : s.locks.tryLock i BOOTSTRAP_ADVISORY_LOCK = some locks) :
      BootstrapMoved env s { s.setPhase i call .locked with locks := locks }
  | count {i : Nat} {call : BootstrapCall} (ht : s.calls[i]? = some ⟨call,.locked⟩) (husers : s.db.users.rows = []) :
      BootstrapMoved env s (s.setPhase i call (.writing s.log.length [] (call.inserts env)))
  | write {i since : Nat} {call : BootstrapCall} {done todo : List TenantInsert} {w : TenantInsert}
      (ht : s.calls[i]? = some ⟨call,.writing since done (w :: todo)⟩) :
      BootstrapMoved env s (s.setPhase i call (.writing since (done ++ [w]) todo))
  | rollback {i : Nat} {call : BootstrapCall} {phase : BootstrapPhase} {e : BootstrapError} (ht : s.calls[i]? = some ⟨call,phase⟩)
      (hholds : phase.holds = true) (he : e ≠ .sessionRefused) : BootstrapMoved env s (s.rollback i call e)
  | commit {i since : Nat} {call : BootstrapCall} {done : List TenantInsert} {db : TenantDb}
      (ht : s.calls[i]? = some ⟨call,.writing since done []⟩) (hland : s.db.land done = some db) :
      BootstrapMoved env s (s.commit i call since db)
  | other {db : TenantDb} (sessions : Table SessionRow.tokenHash) (hkeeps : s.db.KeepsUsers db) :
      BootstrapMoved env s { s with db := db, sessions := sessions, log := s.log ++ [⟨.other,s.db,db⟩] }

theorem bootstrapMoved_of_advance {i now : Nat} {call : BootstrapCall} {phase : BootstrapPhase} (ht : s.calls[i]? = some ⟨call,phase⟩)
    (h : s.advance env ttl i call now phase = some t) : BootstrapMoved env s t := by
  cases phase with
  | started =>
    cases h
    refine .outside _ s.sessions ht rfl ?_ ?_ <;> split <;> rfl
  | waiting =>
    obtain ⟨locks,hlocks,rfl⟩ := Option.map_eq_some_iff.mp h
    exact .lock ht hlocks
  | locked =>
    cases h
    split
    · exact .rollback ht rfl (by simp)
    · rename_i hnone
      exact .count ht (List.length_eq_zero_iff.mp (by omega))
  | writing since done todo =>
    cases todo with
    | nil =>
      cases h
      cases hland : s.db.land done with
      | none => exact .rollback ht rfl (by simp)
      | some db => exact .commit ht hland
    | cons w todo =>
      cases h
      split
      · exact .write ht
      · exact .rollback ht rfl (by simp)
  | committed =>
    cases h
    rw [BootstrapState.createSession]
    dsimp only
    split
    · exact .outside _ _ ht rfl rfl rfl
    · exact .outside _ s.sessions ht rfl rfl rfl
  | ended result => simp [BootstrapState.advance] at h

theorem bootstrapMoved_of_step (hallowed : BootstrapAllowed s a) (h : bootstrapStep env ttl s a = some t) : BootstrapMoved env s t := by
  cases a with
  | call call =>
    cases h
    exact .call call
  | advance i now =>
    obtain ⟨tx,ht,hadvance⟩ := Option.bind_eq_some_iff.mp h
    exact bootstrapMoved_of_advance ht hadvance
  | other db sessions =>
    cases h
    exact .other sessions hallowed

end Steps

section Lock
variable {env : Surroundings} {s t : BootstrapState} {i : Nat} {tx tx' : BootstrapTx}

/-- The lock is with the call whose phase says so. -/
structure LockInv (s : BootstrapState) : Prop where
  held : ∀ i n, s.locks.holder BOOTSTRAP_ADVISORY_LOCK = some (i,n) → n = 0 ∧ ∃ tx, s.calls[i]? = some tx ∧ tx.phase.holds = true
  holds : ∀ (i : Nat) (tx : BootstrapTx), s.calls[i]? = some tx → tx.phase.holds = true →
    s.locks.holder BOOTSTRAP_ADVISORY_LOCK = some (i,0)

theorem lockInv_initial {db : TenantDb} {sessions : Table SessionRow.tokenHash} : LockInv (.initial db sessions) := by
  constructor <;> simp [BootstrapState.initial,Locks.free]

theorem LockInv.unique (h : LockInv s) {i' : Nat} (ht : s.calls[i]? = some tx) (ht' : s.calls[i']? = some tx')
    (hholds : tx.phase.holds = true) (hholds' : tx'.phase.holds = true) : i = i' := by
  have hheld := h.holds i tx ht hholds
  rw [h.holds i' tx' ht' hholds'] at hheld
  exact ((Prod.mk.inj (Option.some.inj hheld)).1).symm

/-- One call has moved, and has taken the lock, kept it or given it back as its phases say. -/
theorem lockInv_move (h : LockInv s) (ht : s.calls[i]? = some tx) (htake : tx'.phase.holds = true → tx.phase.holds = true ∨
      s.locks.holder BOOTSTRAP_ADVISORY_LOCK = none) (hcalls : t.calls = s.calls.set i tx')
    (hlocks : t.locks.holder BOOTSTRAP_ADVISORY_LOCK = if tx'.phase.holds then some (i,0) else
      if tx.phase.holds then none else s.locks.holder BOOTSTRAP_ADVISORY_LOCK) : LockInv t := by
  have hset := getElem?_set_of_some ht tx'
  refine ⟨fun i' n hheld => ?_,fun i' tx'' ht'' hholds => ?_⟩
  · rw [hlocks] at hheld
    rw [hcalls]
    split at hheld
    · rename_i hholds
      cases hheld
      exact ⟨rfl,tx',(hset i).trans (if_pos rfl),hholds⟩
    · split at hheld
      · simp at hheld
      · rename_i hidle
        obtain ⟨hn,tx'',ht'',hholds⟩ := h.held i' n hheld
        have hother : tx'' ≠ tx := by
          rintro rfl
          exact hidle hholds
        exact ⟨hn,tx'',getElem?_set_other ht ht'' hother tx',hholds⟩
  · rw [hcalls,hset] at ht''
    rw [hlocks]
    split at ht''
    · rename_i hi
      cases ht''
      rw [if_pos hholds,hi]
    · rename_i hi
      have hheld := h.holds i' tx'' ht'' hholds
      have hidle : tx.phase.holds ≠ true := fun htx => hi (h.unique ht'' ht hholds htx)
      have hidle' : tx'.phase.holds ≠ true := fun htx' => (htake htx').elim hidle fun hfree => by simp [hfree] at hheld
      rw [if_neg hidle',if_neg hidle,hheld]

theorem lockInv_moved (h : LockInv s) (hmoved : BootstrapMoved env s t) : LockInv t := by
  cases hmoved with
  | call call =>
    have happend := getElem?_append_new s.calls ⟨call,.started⟩
    refine ⟨fun i n hheld => ?_,fun i tx ht hholds => ?_⟩
    · obtain ⟨hn,tx,ht,hholds⟩ := h.held i n hheld
      have hlt := (List.getElem?_eq_some_iff.mp ht).1
      exact ⟨hn,tx,(happend i).trans ((if_neg (by omega)).trans ht),hholds⟩
    · rw [happend] at ht
      split at ht
      · cases ht
        simp [BootstrapPhase.holds] at hholds
      · exact h.holds i tx ht hholds
  | outside phase' sessions ht hholds hholds' hafter =>
    exact lockInv_move h ht (by simp [hholds']) rfl (by simp [hholds,hholds',BootstrapState.setPhase])
  | @lock i call locks ht hlocks =>
    have hother : ∀ n, s.locks.holder BOOTSTRAP_ADVISORY_LOCK ≠ some (i,n) := by
      intro n hheld
      obtain ⟨-,tx,ht',hholds⟩ := h.held _ n hheld
      obtain rfl := Option.some.inj (ht.symm.trans ht')
      simp [BootstrapPhase.holds] at hholds
    obtain ⟨hfree,hholder⟩ := Locks.holder_tryLock hother hlocks
    exact lockInv_move h ht (fun _ => .inr hfree) rfl ((hholder _).trans (if_pos rfl))
  | count ht husers => exact lockInv_move h ht (fun _ => .inl rfl) rfl (h.holds _ _ ht rfl)
  | write ht => exact lockInv_move h ht (fun _ => .inl rfl) rfl (h.holds _ _ ht rfl)
  | rollback ht hholds he =>
    refine lockInv_move h ht (fun _ => .inl hholds) rfl ?_
    rw [if_neg (by simp [BootstrapPhase.holds]),if_pos hholds]
    exact Locks.releaseAll_held (h.holds _ _ ht hholds)
  | commit ht hland => exact lockInv_move h ht (fun _ => .inl rfl) rfl (Locks.releaseAll_held (h.holds _ _ ht rfl))
  | other sessions hkeeps => exact ⟨h.held,h.holds⟩

end Lock

section Log
variable {env : Surroundings} {ttl : Nat} {start : TenantDb} {s t : BootstrapState} {i : Nat} {tx tx' : BootstrapTx}

/-- What a call that has counted the users still knows of the log, and what it has inserted so far. -/
structure Counted (env : Surroundings) (start : TenantDb) (log : List Commit) (call : BootstrapCall) (since : Nat)
    (done todo : List TenantInsert) : Prop where
  since_le : since ≤ log.length
  start_empty : start.users.rows = []
  log_empty : ∀ c ∈ log.take since, c.after.users.rows = []
  first : ∀ c ∈ log, c.committer.isBootstrap = false
  inserts : done ++ todo = call.inserts env

structure LogInv (env : Surroundings) (start : TenantDb) (s : BootstrapState) : Prop where
  committed : Committed start s.log s.db
  empty : s.db.users.rows = [] → start.users.rows = [] ∧ ∀ c ∈ s.log, c.after.users.rows = []
  settled : ∀ c ∈ s.log, c.committer.isBootstrap = true → s.db.users.rows ≠ []
  once : (s.log.filter (·.committer.isBootstrap)).length ≤ 1
  early : ∀ c ∈ s.log, ∀ i since, c.committer = .bootstrap i since →
    since ≤ s.log.length ∧ start.users.rows = [] ∧ ∀ c' ∈ s.log.take since, c'.after.users.rows = []
  writing : ∀ (i : Nat) (call : BootstrapCall) (since : Nat) (done todo : List TenantInsert),
    s.calls[i]? = some ⟨call,.writing since done todo⟩ → Counted env start s.log call since done todo
  owner : ∀ c ∈ s.log, ∀ i since, c.committer = .bootstrap i since → ∃ tx, s.calls[i]? = some tx ∧ tx.phase.afterCommit = true

theorem logInv_initial {sessions : Table SessionRow.tokenHash} : LogInv env start (.initial start sessions) where
  committed := .nil
  empty hempty := ⟨hempty,by simp [BootstrapState.initial]⟩
  settled := by simp [BootstrapState.initial]
  once := by simp [BootstrapState.initial]
  early := by simp [BootstrapState.initial]
  writing := by simp [BootstrapState.initial]
  owner := by simp [BootstrapState.initial]

theorem logInv_calls (h : LogInv env start s) (hdb : t.db = s.db) (hlog : t.log = s.log)
    (hwriting : ∀ (i : Nat) (call : BootstrapCall) (since : Nat) (done todo : List TenantInsert),
      t.calls[i]? = some ⟨call,.writing since done todo⟩ → Counted env start s.log call since done todo)
    (howner : ∀ (i : Nat) (tx : BootstrapTx), s.calls[i]? = some tx → tx.phase.afterCommit = true →
      ∃ tx', t.calls[i]? = some tx' ∧ tx'.phase.afterCommit = true) : LogInv env start t where
  committed := by rw [hdb,hlog]; exact h.committed
  empty := by rw [hdb,hlog]; exact h.empty
  settled := by rw [hdb,hlog]; exact h.settled
  once := by rw [hlog]; exact h.once
  early := by rw [hlog]; exact h.early
  writing := by rw [hlog]; exact hwriting
  owner := by
    rw [hlog]
    intro c hc i since hcommitter
    obtain ⟨tx,ht,hafter⟩ := h.owner c hc i since hcommitter
    exact howner i tx ht hafter

theorem logInv_setPhase (h : LogInv env start s) {call : BootstrapCall} {phase phase' : BootstrapPhase}
    (ht : s.calls[i]? = some ⟨call,phase⟩)
    (hcalls : t.calls = s.calls.set i ⟨call,phase'⟩) (hdb : t.db = s.db) (hlog : t.log = s.log)
    (hwriting : ∀ since done todo, phase' = .writing since done todo → Counted env start s.log call since done todo)
    (hafter : phase.afterCommit = true → phase'.afterCommit = true) : LogInv env start t := by
  have hset := getElem?_set_of_some ht ⟨call,phase'⟩
  refine logInv_calls h hdb hlog (fun i' call' since done todo ht' => ?_) (fun i' tx ht' hafter' => ?_)
  · rw [hcalls,hset] at ht'
    split at ht'
    · obtain ⟨rfl,hphase⟩ := BootstrapTx.mk.inj (Option.some.inj ht')
      exact hwriting since done todo hphase
    · exact h.writing i' call' since done todo ht'
  · rw [hcalls,hset]
    split
    · rename_i hi
      subst hi
      obtain rfl := Option.some.inj (ht.symm.trans ht')
      exact ⟨_,rfl,hafter hafter'⟩
    · exact ⟨tx,ht',hafter'⟩

/-- What has been seen of the log stays true of it. -/
theorem take_snoc {log : List Commit} {c : Commit} {since : Nat} (h : since ≤ log.length) : (log ++ [c]).take since = log.take since :=
  List.take_append_of_le_length h

theorem logInv_other (h : LogInv env start s) {db : TenantDb} (sessions : Table SessionRow.tokenHash) (hkeeps : s.db.KeepsUsers db) :
    LogInv env start { s with db := db, sessions := sessions, log := s.log ++ [⟨.other,s.db,db⟩] } where
  committed := .snoc h.committed
  empty hempty := by
    obtain ⟨hstart,hlog⟩ := h.empty (users_of_keepsUsers hkeeps hempty)
    refine ⟨hstart,fun c hc => ?_⟩
    rcases List.mem_append.mp hc with hold | hnew
    · exact hlog c hold
    · obtain rfl := List.mem_singleton.mp hnew
      exact hempty
  settled c hc hboot hempty := by
    rcases List.mem_append.mp hc with hold | hnew
    · exact h.settled c hold hboot (users_of_keepsUsers hkeeps hempty)
    · obtain rfl := List.mem_singleton.mp hnew
      simp [Committer.isBootstrap] at hboot
  once := by
    rw [List.filter_append]
    simpa [Committer.isBootstrap] using h.once
  early c hc i since hcommitter := by
    rcases List.mem_append.mp hc with hold | hnew
    · obtain ⟨hle,hstart,hearly⟩ := h.early c hold i since hcommitter
      rw [take_snoc hle,List.length_append]
      exact ⟨by omega,hstart,hearly⟩
    · obtain rfl := List.mem_singleton.mp hnew
      simp at hcommitter
  writing i call since done todo ht := by
    have hcounted := h.writing i call since done todo ht
    refine ⟨?_,hcounted.start_empty,?_,fun c hc => ?_,hcounted.inserts⟩
    · rw [List.length_append]
      exact Nat.le_add_right_of_le hcounted.since_le
    · rw [take_snoc hcounted.since_le]
      exact hcounted.log_empty
    · rcases List.mem_append.mp hc with hold | hnew
      · exact hcounted.first c hold
      · obtain rfl := List.mem_singleton.mp hnew
        rfl
  owner c hc i since hcommitter := by
    rcases List.mem_append.mp hc with hold | hnew
    · exact h.owner c hold i since hcommitter
    · obtain rfl := List.mem_singleton.mp hnew
      simp at hcommitter

/-- The commit of the call that holds the lock is the first, and leaves a user. -/
theorem logInv_commit (hlock : LockInv s) (h : LogInv env start s) {call : BootstrapCall}
    {since : Nat} {done : List TenantInsert} {db : TenantDb}
    (ht : s.calls[i]? = some ⟨call,.writing since done []⟩) (hland : s.db.land done = some db) :
    LogInv env start (s.commit i call since db) := by
  have hcounted := h.writing i call since done [] ht
  have hset := getElem?_set_of_some ht ⟨call,.committed⟩
  have husers : db.users.rows ≠ [] := by
    have hinserts : done = call.inserts env := (List.append_nil done).symm.trans hcounted.inserts
    obtain ⟨user,huser⟩ : ∃ user, .user user ∈ done := ⟨_,by rw [hinserts]; exact List.mem_cons_of_mem _ List.mem_cons_self⟩
    exact List.ne_nil_of_mem ((users_of_land hland).2 user huser)
  refine ⟨.snoc h.committed,fun hempty => absurd hempty husers,fun _ _ _ => husers,?_,fun c hc i' since' hcommitter => ?_,?_,?_⟩
  · have hnone : s.log.filter (·.committer.isBootstrap) = [] :=
      List.filter_eq_nil_iff.mpr fun c hc => by simp [hcounted.first c hc]
    rw [BootstrapState.commit,List.filter_append,hnone]
    rfl
  · obtain rfl : since' = since := by
      rcases List.mem_append.mp hc with hold | hnew
      · have hfirst := hcounted.first c hold
        simp [hcommitter,Committer.isBootstrap] at hfirst
      · obtain rfl := List.mem_singleton.mp hnew
        exact (Committer.bootstrap.inj hcommitter).2.symm
    rw [BootstrapState.commit,take_snoc hcounted.since_le,List.length_append]
    exact ⟨Nat.le_add_right_of_le hcounted.since_le,hcounted.start_empty,hcounted.log_empty⟩
  · intro i' call' since' done' todo' ht'
    rw [BootstrapState.commit,BootstrapState.setPhase,hset] at ht'
    split at ht'
    · simp at ht'
    · rename_i hi
      exact absurd (hlock.unique ht' ht rfl rfl) hi
  · intro c hc i' since' hcommitter
    rw [BootstrapState.commit,BootstrapState.setPhase,hset]
    rcases List.mem_append.mp hc with hold | hnew
    · have hfirst := hcounted.first c hold
      simp [hcommitter,Committer.isBootstrap] at hfirst
    · obtain rfl := List.mem_singleton.mp hnew
      cases hcommitter
      exact ⟨_,if_pos rfl,rfl⟩

theorem logInv_moved (hlock : LockInv s) (h : LogInv env start s) (hmoved : BootstrapMoved env s t) : LogInv env start t := by
  cases hmoved with
  | call call =>
    have happend := getElem?_append_new s.calls ⟨call,.started⟩
    refine logInv_calls h rfl rfl (fun i call' since done todo ht => ?_) (fun i tx ht hafter => ?_)
    · rw [happend] at ht
      split at ht
      · simp at ht
      · exact h.writing i call' since done todo ht
    · have hlt := (List.getElem?_eq_some_iff.mp ht).1
      exact ⟨tx,(happend i).trans ((if_neg (by omega)).trans ht),hafter⟩
  | outside phase' sessions ht hholds hholds' hafter =>
    refine logInv_setPhase h ht rfl rfl rfl (fun since done todo hphase => ?_) fun htx => hafter.trans htx
    simp [hphase,BootstrapPhase.holds] at hholds'
  | lock ht hlocks => exact logInv_setPhase h ht rfl rfl rfl (by simp) (by simp [BootstrapPhase.afterCommit])
  | count ht husers =>
    refine logInv_setPhase h ht rfl rfl rfl (fun since done todo hphase => ?_) (by simp [BootstrapPhase.afterCommit])
    cases hphase
    obtain ⟨hstart,hempty⟩ := h.empty husers
    refine ⟨Nat.le_refl _,hstart,fun c hc => hempty c (List.mem_of_mem_take hc),fun c hc => ?_,rfl⟩
    exact Bool.not_eq_true _ ▸ fun hboot => h.settled c hc hboot husers
  | write ht =>
    refine logInv_setPhase h ht rfl rfl rfl (fun since done todo hphase => ?_) (by simp [BootstrapPhase.afterCommit])
    cases hphase
    have hcounted := h.writing _ _ _ _ _ ht
    exact ⟨hcounted.since_le,hcounted.start_empty,hcounted.log_empty,hcounted.first,by rw [List.append_assoc]; exact hcounted.inserts⟩
  | @rollback i call phase e ht hholds he =>
    refine logInv_setPhase h ht rfl rfl rfl (by simp) fun hafter => ?_
    cases phase <;> simp [BootstrapPhase.holds,BootstrapPhase.afterCommit] at hholds hafter
  | commit ht hland => exact logInv_commit hlock h ht hland
  | other sessions hkeeps => exact logInv_other h sessions hkeeps

theorem bootstrapOnce_of_inv (h : LogInv env start s) : BootstrapOnce start s where
  once := h.once
  early c hc i since hcommitter := (h.early c hc i since hcommitter).2
  committed := h.committed
  failed i call e ht he c hc since hcommitter := by
    obtain ⟨tx,ht',hafter⟩ := h.owner c hc i since hcommitter
    obtain rfl := Option.some.inj (ht.symm.trans ht')
    cases e <;> simp [BootstrapPhase.afterCommit] at hafter he

/-- In every run of bootstrap calls next to each other and to other transactions. -/
theorem bootstrap_once {sessions : Table SessionRow.tokenHash}
    (hrun : Run (bootstrapStep env ttl) BootstrapAllowed (.initial start sessions) s) : BootstrapOnce start s := by
  have hkept : ∀ s a t, LockInv s ∧ LogInv env start s → BootstrapAllowed s a → bootstrapStep env ttl s a = some t →
      LockInv t ∧ LogInv env start t := by
    intro s a t h hallowed hstep
    have hmoved := bootstrapMoved_of_step hallowed hstep
    exact ⟨lockInv_moved h.1 hmoved,logInv_moved h.1 h.2 hmoved⟩
  exact bootstrapOnce_of_inv (hrun.invariant hkept ⟨lockInv_initial,logInv_initial⟩).2

/-- Surroundings that can be computed. An address is made of digits, dots and colons. -/
def plainSurroundings : Surroundings where
  crypto := plainCrypto
  text := asciiCase
  nfkd text := text
  isInet text := text.all fun c => isDigit c || c == unit '.' || c == unit ':'

def ownerCall (ip : JsString) (n : Nat) : BootstrapCall where
  config := ⟨true,none,js "once"⟩
  req := ⟨js "ann@acme.test",js "correct horse",js "Ann",js "Acme Mail!"⟩
  ip := some ip
  userAgent := none
  providedToken := some (js "once")
  draw := ⟨js "salt",js "00c0ffee",n,n,[unit 't',Nat.toUInt16 n]⟩

def newInstance : TenantDb := ⟨.ascii,.empty,List.nodup_nil,.empty,List.nodup_nil,.empty⟩

/-- Two calls overlap: one makes the owner, the other waits for the lock and then finds a user. -/
theorem second_bootstrap_refused : ∃ s, Run (bootstrapStep plainSurroundings 60) BootstrapAllowed (.initial newInstance .empty) s ∧
    s.calls.map (·.phase.result) = [some (.ok ()),some (.error .alreadyBootstrapped)] ∧ BootstrapOnce newInstance s := by
  have hactions : (runActions (bootstrapStep plainSurroundings 60) BootstrapAllowed (.initial newInstance .empty)
      [.call (ownerCall (js "192.0.2.1") 1),.call (ownerCall (js "192.0.2.2") 2),.advance 0 0,.advance 1 0,.advance 0 0,.advance 0 0,
       .advance 0 0,.advance 0 0,.advance 0 0,.advance 0 0,.advance 1 0,.advance 1 0,.advance 0 0]).map
        (fun s => s.calls.map (·.phase.result)) = some [some (.ok ()),some (.error .alreadyBootstrapped)] := by decide +kernel
  obtain ⟨s,hs,hresults⟩ := Option.map_eq_some_iff.mp hactions
  have hrun := Run.of_actions hs
  exact ⟨s,hrun,hresults,bootstrap_once hrun⟩

/-- The call that fails has made no commit. -/
def FailuresLeaveTables (s : BootstrapState) : Prop :=
  ∀ (i : Nat) (call : BootstrapCall) (e : BootstrapError), s.calls[i]? = some ⟨call,.ended (.error e)⟩ →
    ∀ c ∈ s.log, ∀ since, c.committer ≠ .bootstrap i since

/-- A forwarded address that is none: the owner is made, and the row of the session is refused. -/
theorem refused_session_leaves_owner : ∃ s, Run (bootstrapStep plainSurroundings 60) BootstrapAllowed (.initial newInstance .empty) s ∧
    ¬FailuresLeaveTables s := by
  have hactions : (runActions (bootstrapStep plainSurroundings 60) BootstrapAllowed (.initial newInstance .empty)
      [.call (ownerCall (js "unknown") 1),.advance 0 0,.advance 0 0,.advance 0 0,.advance 0 0,.advance 0 0,.advance 0 0,.advance 0 0,
       .advance 0 0]).map (fun s => (s.calls.map (·.phase.result),s.log.map (·.committer))) =
        some ([some (.error .sessionRefused)],[.bootstrap 0 0]) := by decide +kernel
  obtain ⟨s,hs,hends⟩ := Option.map_eq_some_iff.mp hactions
  obtain ⟨hresults,hlog⟩ := Prod.mk.inj hends
  refine ⟨s,Run.of_actions hs,fun hleave => ?_⟩
  obtain ⟨⟨call,phase⟩,hcalls,hresult⟩ := List.map_eq_singleton_iff.mp hresults
  obtain ⟨c,hc,hcommitter⟩ := List.map_eq_singleton_iff.mp hlog
  cases phase with
  | ended result =>
    cases hresult
    exact hleave 0 call .sessionRefused (by rw [hcalls]; rfl) c (by simp [hc]) 0 hcommitter
  | _ => simp [BootstrapPhase.result] at hresult

end Log

end JustMail.Accounts
