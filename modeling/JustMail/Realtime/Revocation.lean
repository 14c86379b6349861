import JustMail.Foundation.Tasks
import JustMail.Webmail.LockedMailbox

/-! What a session leaves behind when it is revoked: sockets of the realtime gateway that were opened
with its tickets, and the passwords of the mailboxes that it has unlocked. -/
namespace JustMail.Realtime
open Foundation Webmail

section Gateway

structure TicketPayload where
  sessionId : UuidText
  userId : JsString
  orgIds : List JsString
  exp : Nat
  deriving DecidableEq

/-- A registered socket. `lastPingAt` is in milliseconds. -/
structure AuthedSocket where
  sessionId : UuidText
  userId : JsString
  orgIds : List JsString
  topics : List JsString
  lastPingAt : Nat
  isOpen : Bool

inductive ClientMessage where
  | invalid
  | ping
  | subscribe (topic : JsString)
  | unsubscribe (topic : JsString)

namespace AuthedSocket
variable (socket : AuthedSocket) (now : Nat)

def canSubscribe (topic : JsString) : Bool :=
  if (js "org:").isPrefixOf topic then (topic.splitOn (unit ':'))[1]?.any fun orgId => !orgId.isEmpty && socket.orgIds.contains orgId
  else (js "user:" ++ socket.userId).isPrefixOf topic || topic == js "session:" ++ socket.sessionId.text

def onMessage : ClientMessage → AuthedSocket
  | .invalid => socket
  | .ping => { socket with lastPingAt := now }
  | .subscribe topic =>
    if topic.isEmpty || !socket.canSubscribe topic || socket.topics.contains topic then socket
    else { socket with topics := socket.topics ++ [topic] }
  | .unsubscribe topic => { socket with topics := socket.topics.filter (· != topic) }

def close : AuthedSocket := { socket with isOpen := false }

def sweepIdle : AuthedSocket := if 60000 < now - socket.lastPingAt then socket.close else socket

/-- `publish` sends the event to the socket. -/
def receives (topic : JsString) (orgIds : List JsString) : Bool :=
  socket.isOpen && socket.topics.contains topic && (orgIds.isEmpty || orgIds.any socket.orgIds.contains)

end AuthedSocket

/-- `verifyTicket`, of a ticket whose signature is right. -/
def TicketPayload.verify (ticket : TicketPayload) (now : Nat) : Bool := now / 1000 ≤ ticket.exp

end Gateway

section Model
variable {ν : Type}

structure SessionRow where
  id : UuidText
  userId : JsString

/-- `now` is in milliseconds. `purged` are the sessions whose credentials a revocation has deleted, or has
read the index of in order to delete them; `returned` those for which one has returned. -/
structure SessionWorld where
  now : Nat
  rows : List SessionRow
  stores : Deployment
  tickets : List TicketPayload
  sockets : List AuthedSocket
  purged : List UuidText
  returned : List UuidText

/-- What clients of the gateway do, its timer, and the clock. -/
inductive GatewayEvent where
  | connect (ticket : TicketPayload)
  | message (i : Nat) (msg : ClientMessage)
  | close (i : Nat)
  | sweepIdle
  | wait (ms : Nat)

/-- A request, after `SessionGuard` has let it pass. -/
inductive SessionRequest where
  | wsTicket
  | unlock (mailboxId : UuidText) (password : JsString)
  | logout
  | revokeSession (sessionId : UuidText)

/-- The first id is that of the session that makes the request. -/
inductive SessionInstr where
  | guard (p : UuidText) (request : SessionRequest)
  | issueTicket (p : UuidText) (userId : JsString)
  | mailboxFor (p mailboxId : UuidText) (password : JsString)
  | login (p mailboxId : UuidText) (address password : JsString)
  | store (p mailboxId : UuidText) (address password : JsString)
  | deleteSession (p sessionId : UuidText) (owner : Option JsString)
  | purgeRead (p sessionId : UuidText)
  | purgeDelete (p sessionId : UuidText) (mailboxIds : List JsString)
  | finish (p sessionId : UuidText)
  | event (e : GatewayEvent)

/-- What an instruction meets: the row is still good, the organisations of the user, the address of a
mailbox that may be accessed, the answer of the mail server, and the bytes that `seal` draws. -/
structure SessionEnv (ν : Type) where
  live : Bool
  orgIds : List JsString
  address : Option JsString
  accepted : Bool
  redisNonce : ν
  settingsNonce : ν

inductive SessionOp where
  | request (p : UuidText) (request : SessionRequest)
  | event (e : GatewayEvent)

def SessionOp.body : SessionOp → List SessionInstr
  | .request p r => [.guard p r]
  | .event e => [.event e]

def SessionRequest.afterGuard (p : UuidText) (userId : JsString) : SessionRequest → List SessionInstr
  | .wsTicket => [.issueTicket p userId]
  | .unlock mailboxId password => [.mailboxFor p mailboxId password]
  | .logout => [.deleteSession p p none,.purgeRead p p,.finish p p]
  | .revokeSession sessionId => [.deleteSession p sessionId (some userId),.purgeRead p sessionId,.finish p sessionId]

/-- The session that a request under way belongs to. -/
def SessionInstr.principal : SessionInstr → Option UuidText
  | .guard _ _ | .event _ => none
  | .issueTicket p _ | .mailboxFor p _ _ | .login p _ _ _ | .store p _ _ _ | .deleteSession p _ _ | .purgeRead p _ | .purgeDelete p _ _ |
    .finish p _ => some p

/-- The first half of `purgeSession`: all of it without Redis. -/
def purgeRead (d : Deployment) (now : Nat) (sessionId : UuidText) : Option (Deployment × Option (List JsString)) :=
  match d with
  | .redis credentials views => (Keyspace.smembers credentials now (idxKey sessionId.text)).map fun ids =>
      (.redis credentials views,some ids)
  | .settings rows => some (.settings (Settings.purgeSession rows sessionId.text),none)

/-- The second half. -/
def purgeDelete (d : Deployment) (sessionId : UuidText) (mailboxIds : List JsString) : Deployment :=
  match d with
  | .redis credentials views =>
    .redis (Keyspace.del credentials (mailboxIds.map (credKey sessionId.text) ++ [idxKey sessionId.text])) views
  | .settings rows => .settings rows

namespace SessionWorld
variable (w : SessionWorld)

/-- The clock of the credential store. -/
def seconds : Nat := w.now / 1000

def handle : GatewayEvent → SessionWorld
  | .connect ticket =>
    if ticket ∈ w.tickets ∧ ticket.verify w.now = true then
      { w with sockets := w.sockets ++ [⟨ticket.sessionId,ticket.userId,ticket.orgIds,[],w.now,true⟩] }
    else w
  | .message i msg => { w with sockets := w.sockets.modify i (·.onMessage w.now msg) }
  | .close i => { w with sockets := w.sockets.modify i (·.close) }
  | .sweepIdle => { w with sockets := w.sockets.map (·.sweepIdle w.now) }
  | .wait ms => { w with now := w.now + ms }

variable (ttl : Nat) (box : Secretbox ν)

def exec (instr : SessionInstr) (env : SessionEnv ν) : Option (SessionWorld × Outcome SessionInstr) :=
  match instr with
  | .guard p request =>
    some (w,match w.rows.find? (·.id = p) with
      | some row => if env.live then .next (request.afterGuard p row.userId) else .throw
      | none => .throw)
  | .issueTicket p userId => some ({ w with tickets := w.tickets ++ [⟨p,userId,env.orgIds,w.seconds + 60⟩] },.next [])
  | .mailboxFor p mailboxId password =>
    some (w,env.address.elim .throw fun address => .next [.login p mailboxId address password])
  | .login p mailboxId address password => some (w,if env.accepted then .next [.store p mailboxId address password] else .throw)
  | .store p mailboxId address password =>
    let call : TimedCall ν := ⟨w.seconds,.store p mailboxId address password,env.redisNonce,env.settingsNonce⟩
    some ({ w with stores := (w.stores.credentialCall ttl box call).1 },.next [])
  | .deleteSession _ sessionId owner =>
    let deleted (row : SessionRow) : Bool := row.id = sessionId ∧ owner.all (· == row.userId)
    if owner.isSome ∧ w.rows.any deleted = false then some (w,.throw)
    else some ({ w with rows := w.rows.filter (!deleted ·) },.next [])
  | .purgeRead p sessionId =>
    some (match purgeRead w.stores w.seconds sessionId with
      | none => (w,.throw)
      | some (stores,none) => ({ w with stores := stores, purged := sessionId :: w.purged },.next [])
      | some (stores,some ids) => ({ w with stores := stores, purged := sessionId :: w.purged },.next [.purgeDelete p sessionId ids]))
  | .purgeDelete _ sessionId ids => some ({ w with stores := purgeDelete w.stores sessionId ids },.next [])
  -- the connections to the mail server are dropped, and the call returns
  | .finish _ sessionId => some ({ w with returned := sessionId :: w.returned },.next [])
  | .event e => some (w.handle e,.next [])

/-- A start of the system, with the sessions there are. -/
def initial (withRedis : Bool) (rows : List SessionRow) : SessionWorld :=
  ⟨0,rows,if withRedis then .redis .empty .empty else .settings .empty,[],[],[],[]⟩

end SessionWorld

abbrev SessionTasks := Tasks SessionWorld SessionInstr

variable (ttl : Nat) (box : Secretbox ν)

def sessionStep : SessionTasks → TaskAction SessionOp (SessionEnv ν) → Option SessionTasks :=
  taskStep (SessionWorld.exec · ttl box) SessionOp.body

/-- A revocation has returned, and no request of the session is under way. -/
def Settled (s : SessionTasks) (sessionId : UuidText) : Prop :=
  sessionId ∈ s.shared.returned ∧ ∀ task ∈ s.running, ∀ instr ∈ task, instr.principal ≠ some sessionId

/-- No socket of the session gets an event, and the store has no credential for it. -/
structure RevocationComplete (s : SessionTasks) : Prop where
  sockets : ∀ sessionId, Settled s sessionId → ∀ topic orgIds, ∀ socket ∈ s.shared.sockets, socket.sessionId = sessionId →
    socket.receives topic orgIds = false
  credentials : ∀ sessionId, Settled s sessionId → ∀ (mailboxId : UuidText) (redisNonce settingsNonce : ν) (creds : CachedCreds),
    (s.shared.stores.credentialCall ttl box ⟨s.shared.seconds,.get sessionId mailboxId,redisNonce,settingsNonce⟩).2 ≠ .creds (some creds)

/-- When a revocation returns, the session has no open socket, and its tickets open none afterwards; no
password is stored for it once its credentials are being purged. -/
def Undisturbed (w : SessionWorld) : SessionInstr → Prop
  | .finish _ sessionId => ∀ socket ∈ w.sockets, socket.sessionId = sessionId → socket.isOpen = false
  | .event (.connect ticket) => ticket ∈ w.tickets → ticket.verify w.now = true → ticket.sessionId ∉ w.returned
  | .store p _ _ _ => p ∉ w.purged
  | _ => True

def UndisturbedStep (s : SessionTasks) (a : TaskAction SessionOp (SessionEnv ν)) : Prop := ∀ instr ∈ s.instr a, Undisturbed s.shared instr

instance (w : SessionWorld) : (instr : SessionInstr) → Decidable (Undisturbed w instr)
  | .finish _ sessionId => inferInstanceAs (Decidable (∀ socket ∈ w.sockets, socket.sessionId = sessionId → socket.isOpen = false))
  | .event (.connect ticket) =>
      inferInstanceAs (Decidable (ticket ∈ w.tickets → ticket.verify w.now = true → ticket.sessionId ∉ w.returned))
  | .store p _ _ _ => inferInstanceAs (Decidable (p ∉ w.purged))
  | .guard _ _ | .issueTicket _ _ | .mailboxFor _ _ _ | .login _ _ _ _ | .deleteSession _ _ _ | .purgeRead _ _ | .purgeDelete _ _ _
  | .event (.message _ _) | .event (.close _) | .event .sweepIdle | .event (.wait _) => .isTrue trivial

instance (s : SessionTasks) (a : TaskAction SessionOp (SessionEnv ν)) : Decidable (UndisturbedStep s a) :=
  inferInstanceAs (Decidable (∀ instr ∈ s.instr a, Undisturbed s.shared instr))

end Model

section Stores
variable {ν : Type} {ttl : Nat} {box : Secretbox ν} {now : Nat} {d d' : Deployment} {v : Vault} {sessionId : UuidText}

/-- Without Redis the credentials are gone at once; with it the index lists every one that is left. -/
theorem purgeRead_holds (h : d.Holds box ttl now v) {ids : Option (List JsString)} (hread : purgeRead d now sessionId = some (d',ids)) :
    (ids = none ∧ d'.Holds box ttl now (v.forget sessionId)) ∨
    ∃ members : List UuidText, ids = some (members.map UuidText.text) ∧ d'.Holds box ttl now v ∧
      ∀ m c, v.find now sessionId m = some c → m ∈ members := by
  cases d with
  | redis credentials views =>
    have hredis : RedisHold box ttl now credentials v := h
    obtain ⟨members,hsmembers,hlisted⟩ := (hredis.index sessionId).smembers
    rw [purgeRead,hsmembers] at hread
    cases hread
    exact .inr ⟨members,rfl,h,hlisted⟩
  | settings rows =>
    cases hread
    refine .inl ⟨rfl,fun s m => ?_⟩
    rw [Settings.find_purgeSession,Vault.find_forget]
    split
    · rfl
    · exact h s m

def withRedis : Deployment → Bool
  | .redis _ _ => true
  | .settings _ => false

theorem withRedis_credentialCall (c : TimedCall ν) : withRedis (d.credentialCall ttl box c).1 = withRedis d := by cases d <;> rfl

theorem withRedis_purgeRead {ids : Option (List JsString)} (hread : purgeRead d now sessionId = some (d',ids)) :
    withRedis d' = withRedis d ∧ (ids.isSome = true → withRedis d' = true) := by
  cases d with
  | redis credentials views =>
    obtain ⟨ids',-,heq⟩ := Option.map_eq_some_iff.mp hread
    cases heq
    exact ⟨rfl,fun _ => rfl⟩
  | settings rows =>
    cases hread
    exact ⟨rfl,fun h => absurd h Bool.false_ne_true⟩

theorem purgeDelete_holds (h : d.Holds box ttl now v) (hredis : withRedis d = true) {members : List UuidText}
    (hlisted : ∀ m c, v.find now sessionId m = some c → m ∈ members) :
    (purgeDelete d sessionId (members.map UuidText.text)).Holds box ttl now (v.forget sessionId) := by
  cases d with
  | redis credentials views =>
    have hcredentials : RedisHold box ttl now credentials v := h
    exact hcredentials.del sessionId hlisted
  | settings rows => simp [withRedis] at hredis

end Stores

section Tasks
variable {ν : Type} {ttl : Nat} {box : Secretbox ν} {v v' : Vault} {w w' : SessionWorld}
  {instr : SessionInstr} {rest task : List SessionInstr}
  {env : SessionEnv ν} {outcome : Outcome SessionInstr}

/-- Where an operation can be, and what a revocation knows of the credentials by then. -/
inductive TaskAt (v : Vault) (w : SessionWorld) : List SessionInstr → Prop where
  | ended : TaskAt v w []
  | guarded (p : UuidText) (r : SessionRequest) : TaskAt v w [.guard p r]
  | issuing (p : UuidText) (userId : JsString) : TaskAt v w [.issueTicket p userId]
  | opening (p m : UuidText) (password : JsString) : TaskAt v w [.mailboxFor p m password]
  | loggingIn (p m : UuidText) (address password : JsString) : TaskAt v w [.login p m address password]
  | storing (p m : UuidText) (address password : JsString) : TaskAt v w [.store p m address password]
  | deleting (p id : UuidText) (owner : Option JsString) : TaskAt v w [.deleteSession p id owner,.purgeRead p id,.finish p id]
  | reading (p id : UuidText) : TaskAt v w [.purgeRead p id,.finish p id]
  | dropping (p : UuidText) {id : UuidText} (members : List UuidText) (hredis : withRedis w.stores = true) (hpurged : id ∈ w.purged)
    (hlisted : ∀ m c, v.find w.seconds id m = some c → m ∈ members) :
    TaskAt v w [.purgeDelete p id (members.map UuidText.text),.finish p id]
  | finishing (p : UuidText) {id : UuidText} (hpurged : id ∈ w.purged) (hnone : ∀ m, v id m = none) : TaskAt v w [.finish p id]
  | event (e : GatewayEvent) : TaskAt v w [.event e]

/-- Sessions that are being purged get no new credentials. -/
structure Later (v : Vault) (w : SessionWorld) (v' : Vault) (w' : SessionWorld) : Prop where
  now : w.now ≤ w'.now
  redis : withRedis w'.stores = withRedis w.stores
  purged : w.purged ⊆ w'.purged
  vault : ∀ id ∈ w.purged, ∀ m, v' id m = v id m ∨ v' id m = none

theorem Later.stays (h : Later v w v' w') {id m : UuidText} (hpurged : id ∈ w.purged) (hnone : v id m = none) : v' id m = none := by
  rcases h.vault id hpurged m with heq | hnone'
  · exact heq.trans hnone
  · exact hnone'

theorem Later.found (h : Later v w v' w') {id m : UuidText} {c : Credential} (hpurged : id ∈ w.purged)
    (hc : v'.find w'.seconds id m = some c) :
    v.find w.seconds id m = some c := by
  obtain ⟨hv',halive⟩ := Option.filter_eq_some_iff.mp hc
  rcases h.vault id hpurged m with heq | hnone
  · refine Option.filter_eq_some_iff.mpr ⟨heq.symm.trans hv',decide_eq_true ?_⟩
    exact Nat.lt_of_le_of_lt (Nat.div_le_div_right h.now) (of_decide_eq_true halive)
  · simp [hnone] at hv'

theorem TaskAt.mono (h : TaskAt v w task) (hlater : Later v w v' w') : TaskAt v' w' task := by
  cases h with
  | ended => exact .ended
  | guarded p r => exact .guarded p r
  | issuing p userId => exact .issuing p userId
  | opening p m password => exact .opening p m password
  | loggingIn p m address password => exact .loggingIn p m address password
  | storing p m address password => exact .storing p m address password
  | deleting p id owner => exact .deleting p id owner
  | reading p id => exact .reading p id
  | dropping p members hredis hpurged hlisted =>
    exact .dropping p members (hlater.redis.trans hredis) (hlater.purged hpurged) fun m c hc => hlisted m c (hlater.found hpurged hc)
  | finishing p hpurged hnone => exact .finishing p (hlater.purged hpurged) fun m => hlater.stays hpurged (hnone m)
  | event e => exact .event e

structure WorldInv (box : Secretbox ν) (ttl : Nat) (v : Vault) (w : SessionWorld) : Prop where
  holds : w.stores.Holds box ttl w.seconds v
  purged : ∀ id ∈ w.returned, id ∈ w.purged
  cleared : ∀ id ∈ w.returned, ∀ m, v id m = none
  closed : ∀ id ∈ w.returned, ∀ socket ∈ w.sockets, socket.sessionId = id → socket.isOpen = false

theorem onMessage_session (socket : AuthedSocket) (now : Nat) (msg : ClientMessage) :
    (socket.onMessage now msg).sessionId = socket.sessionId ∧ (socket.onMessage now msg).isOpen = socket.isOpen := by
  cases msg with
  | subscribe topic =>
    rw [AuthedSocket.onMessage]
    split <;> exact ⟨rfl,rfl⟩
  | _ => exact ⟨rfl,rfl⟩

theorem mem_modify {α : Type} {l : List α} {i : Nat} {f : α → α} {a : α} (h : a ∈ l.modify i f) : ∃ old ∈ l, a = old ∨ a = f old := by
  obtain ⟨j,hj⟩ := List.mem_iff_getElem?.mp h
  rw [List.getElem?_modify] at hj
  obtain ⟨old,hold,hfold⟩ := Option.map_eq_some_iff.mp hj
  refine ⟨old,List.mem_of_getElem? hold,?_⟩
  split at hfold
  · exact .inr hfold.symm
  · exact .inl hfold.symm

/-- An open socket was open before, or has just been opened with a ticket of its session. -/
theorem socket_of_handle {e : GatewayEvent} {socket : AuthedSocket} (h : socket ∈ (w.handle e).sockets) (hopen : socket.isOpen = true) :
    (∃ old ∈ w.sockets, old.sessionId = socket.sessionId ∧ old.isOpen = true) ∨
    ∃ ticket, e = .connect ticket ∧ ticket ∈ w.tickets ∧ ticket.verify w.now = true ∧ ticket.sessionId = socket.sessionId := by
  cases e with
  | connect ticket =>
    rw [SessionWorld.handle] at h
    split at h
    · rename_i hticket
      rcases List.mem_append.mp h with hold | hnew
      · exact .inl ⟨socket,hold,rfl,hopen⟩
      · obtain rfl := List.mem_singleton.mp hnew
        exact .inr ⟨ticket,rfl,hticket.1,hticket.2,rfl⟩
    · exact .inl ⟨socket,h,rfl,hopen⟩
  | message i msg =>
    obtain ⟨old,hold,rfl | rfl⟩ := mem_modify h
    · exact .inl ⟨socket,hold,rfl,hopen⟩
    · obtain ⟨hsession,hstays⟩ := onMessage_session old w.now msg
      exact .inl ⟨old,hold,hsession.symm,hstays.symm.trans hopen⟩
  | close i =>
    obtain ⟨old,hold,rfl | rfl⟩ := mem_modify h
    · exact .inl ⟨socket,hold,rfl,hopen⟩
    · simp [AuthedSocket.close] at hopen
  | sweepIdle =>
    obtain ⟨old,hold,rfl⟩ := List.mem_map.mp h
    rw [AuthedSocket.sweepIdle] at hopen ⊢
    split at hopen
    · simp [AuthedSocket.close] at hopen
    · rename_i hrecent
      rw [if_neg hrecent]
      exact .inl ⟨old,hold,rfl,hopen⟩
  | wait ms => exact .inl ⟨socket,h,rfl,hopen⟩

/-- An instruction that changes neither credentials nor sockets, nor what is known of revocations. -/
theorem worldInv_same (h : WorldInv box ttl v w) (hnow : w'.now = w.now) (hstores : w'.stores = w.stores)
    (hsockets : w'.sockets = w.sockets)
    (hpurged : w'.purged = w.purged) (hreturned : w'.returned = w.returned) : Later v w v w' ∧ WorldInv box ttl v w' := by
  have hseconds : w'.seconds = w.seconds := by rw [SessionWorld.seconds,hnow,SessionWorld.seconds]
  refine ⟨⟨hnow.ge,by rw [hstores],by rw [hpurged]; exact List.Subset.refl _,fun _ _ _ => .inl rfl⟩,?_,?_,?_,?_⟩
  · rw [hstores,hseconds]
    exact h.holds
  · rw [hpurged,hreturned]
    exact h.purged
  · rw [hreturned]
    exact h.cleared
  · rw [hreturned,hsockets]
    exact h.closed

theorem worldInv_store (hpos : 0 < ttl) (h : WorldInv box ttl v w) {p m : UuidText} {address password : JsString} (hp : p ∉ w.purged)
    (hw' : w' = { w with stores := (w.stores.credentialCall ttl box
      ⟨w.seconds,.store p m address password,env.redisNonce,env.settingsNonce⟩).1 }) :
    Later v w (v.set p m (some ⟨address,password,w.seconds + ttl⟩)) w' ∧
      WorldInv box ttl (v.set p m (some ⟨address,password,w.seconds + ttl⟩)) w' := by
  subst hw'
  have hother : ∀ id ∈ w.purged, ∀ m', v.set p m (some ⟨address,password,w.seconds + ttl⟩) id m' = v id m' := by
    intro id hid m'
    have hne : id ≠ p := fun heq => hp (heq ▸ hid)
    simp [Vault.set,hne]
  refine ⟨⟨Nat.le_refl _,withRedis_credentialCall _,List.Subset.refl _,fun id hid m' => .inl (hother id hid m')⟩,?_,h.purged,?_,h.closed⟩
  · exact (credentialCall_holds hpos h.holds _ (Nat.le_refl _)).1
  · exact fun id hid m' => (hother id (h.purged id hid) m').trans (h.cleared id hid m')

/-- The credentials of a session are gone. -/
theorem worldInv_forget (h : WorldInv box ttl v w) {id : UuidText} {stores : Deployment} {purged : List UuidText}
    (hholds : stores.Holds box ttl w.seconds (v.forget id)) (hredis : withRedis stores = withRedis w.stores) (hpurged : w.purged ⊆ purged)
    (hw' : w' = { w with stores := stores, purged := purged }) :
    Later v w (v.forget id) w' ∧ WorldInv box ttl (v.forget id) w' ∧ ∀ m, v.forget id id m = none := by
  subst hw'
  have hforget : ∀ id' m, v.forget id id' m = v id' m ∨ v.forget id id' m = none := by
    intro id' m
    simp only [Vault.forget]
    split
    · exact .inr rfl
    · exact .inl rfl
  refine ⟨⟨Nat.le_refl _,hredis,hpurged,fun id' _ m => hforget id' m⟩,⟨hholds,fun id' hid' => hpurged (h.purged id' hid'),?_,h.closed⟩,?_⟩
  · intro id' hid' m
    rcases hforget id' m with heq | hnone
    · exact heq.trans (h.cleared id' hid' m)
    · exact hnone
  · exact fun m => by simp [Vault.forget]

theorem worldInv_handle (h : WorldInv box ttl v w) {e : GatewayEvent} (hundisturbed : Undisturbed w (.event e)) :
    Later v w v (w.handle e) ∧ WorldInv box ttl v (w.handle e) := by
  have hclosed : ∀ id ∈ w.returned, ∀ socket ∈ (w.handle e).sockets, socket.sessionId = id → socket.isOpen = false := by
    intro id hid socket hsocket hsession
    rw [Bool.eq_false_iff]
    intro hopen
    rcases socket_of_handle hsocket hopen with ⟨old,hold,hsame,hwas⟩ | ⟨ticket,rfl,hticket,hverify,hsame⟩
    · simp [h.closed id hid old hold (hsame.trans hsession)] at hwas
    · exact hundisturbed hticket hverify (hsame.trans hsession ▸ hid)
  have hnow : w.now ≤ (w.handle e).now := by
    cases e with
    | connect ticket =>
      rw [SessionWorld.handle]
      split <;> exact Nat.le_refl _
    | wait ms => exact Nat.le_add_right _ _
    | _ => exact Nat.le_refl _
  have hrest : (w.handle e).stores = w.stores ∧ (w.handle e).purged = w.purged ∧ (w.handle e).returned = w.returned := by
    cases e with
    | connect ticket =>
      rw [SessionWorld.handle]
      split <;> exact ⟨rfl,rfl,rfl⟩
    | _ => exact ⟨rfl,rfl,rfl⟩
  obtain ⟨hstores,hpurged,hreturned⟩ := hrest
  refine ⟨⟨hnow,by rw [hstores],by rw [hpurged]; exact List.Subset.refl _,fun _ _ _ => .inl rfl⟩,?_,?_,?_,?_⟩
  · rw [hstores]
    exact h.holds.mono (Nat.div_le_div_right hnow)
  · rw [hpurged,hreturned]
    exact h.purged
  · rw [hreturned]
    exact h.cleared
  · rw [hreturned]
    exact hclosed

/-- What an instruction leaves of the invariant: the operation is where it can be, and so are the others. -/
structure Kept (box : Secretbox ν) (ttl : Nat) (v : Vault) (w w' : SessionWorld) (task : List SessionInstr) : Prop where
  ok : ∃ v', Later v w v' w' ∧ WorldInv box ttl v' w' ∧ TaskAt v' w' task

theorem kept_other (h : WorldInv box ttl v w) (hnow : w'.now = w.now) (hstores : w'.stores = w.stores) (hsockets : w'.sockets = w.sockets)
    (hpurged : w'.purged = w.purged) (hreturned : w'.returned = w.returned) (htask : TaskAt v w' task) : Kept box ttl v w w' task := by
  obtain ⟨hlater,hinv⟩ := worldInv_same h hnow hstores hsockets hpurged hreturned
  exact ⟨v,hlater,hinv,htask⟩

theorem kept_same (h : WorldInv box ttl v w) (htask : TaskAt v w task) : Kept box ttl v w w task := kept_other h rfl rfl rfl rfl rfl htask

theorem kept_purgeRead (h : WorldInv box ttl v w) {p id : UuidText}
    (hexec : w.exec ttl box (.purgeRead p id) env = some (w',outcome)) : Kept box ttl v w w' (outcome.continuation [.finish p id]) := by
  rw [SessionWorld.exec] at hexec
  cases hread : purgeRead w.stores w.seconds id with
  | none =>
    rw [hread] at hexec
    cases hexec
    exact kept_same h .ended
  | some read =>
    obtain ⟨stores,ids⟩ := read
    obtain ⟨hredis,hwith⟩ := withRedis_purgeRead hread
    rw [hread] at hexec
    rcases purgeRead_holds h.holds hread with ⟨rfl,hholds⟩ | ⟨members,rfl,hholds,hlisted⟩
    · cases hexec
      obtain ⟨hlater,hinv,hnone⟩ := worldInv_forget h hholds hredis (List.subset_cons_self id w.purged) rfl
      exact ⟨_,hlater,hinv,.finishing p List.mem_cons_self hnone⟩
    · cases hexec
      refine ⟨v,⟨Nat.le_refl _,hredis,List.subset_cons_self id w.purged,fun _ _ _ => .inl rfl⟩,?_,?_⟩
      · exact ⟨hholds,fun id' hid' => List.mem_cons_of_mem id (h.purged id' hid'),h.cleared,h.closed⟩
      · exact .dropping p members (hwith rfl) List.mem_cons_self hlisted

theorem kept_finish (h : WorldInv box ttl v w) {p id : UuidText} (hpurged : id ∈ w.purged) (hnone : ∀ m, v id m = none)
    (hundisturbed : Undisturbed w (.finish p id)) : Kept box ttl v w { w with returned := id :: w.returned } [] := by
  refine ⟨v,⟨Nat.le_refl _,rfl,List.Subset.refl _,fun _ _ _ => .inl rfl⟩,⟨h.holds,?_,?_,?_⟩,.ended⟩
  · intro id' hid'
    rcases List.mem_cons.mp hid' with rfl | hid'
    · exact hpurged
    · exact h.purged id' hid'
  · intro id' hid'
    rcases List.mem_cons.mp hid' with rfl | hid'
    · exact hnone
    · exact h.cleared id' hid'
  · intro id' hid'
    rcases List.mem_cons.mp hid' with rfl | hid'
    · exact hundisturbed
    · exact h.closed id' hid'

theorem kept_exec (hpos : 0 < ttl) (h : WorldInv box ttl v w) (htask : TaskAt v w (instr :: rest)) (hundisturbed : Undisturbed w instr)
    (hexec : w.exec ttl box instr env = some (w',outcome)) : Kept box ttl v w w' (outcome.continuation rest) := by
  cases htask with
  | guarded p r =>
    cases hexec
    refine kept_same h ?_
    split
    · split
      · cases r with
        | wsTicket => exact .issuing p _
        | unlock m password => exact .opening p m password
        | logout => exact .deleting p p none
        | revokeSession id => exact .deleting p id _
      · exact .ended
    · exact .ended
  | issuing p userId =>
    cases hexec
    exact kept_other h rfl rfl rfl rfl rfl .ended
  | opening p m password =>
    cases hexec
    refine kept_same h ?_
    cases env.address with
    | none => exact .ended
    | some address => exact .loggingIn p m address password
  | loggingIn p m address password =>
    cases hexec
    refine kept_same h ?_
    split
    · exact .storing p m address password
    · exact .ended
  | storing p m address password =>
    cases hexec
    obtain ⟨hlater,hinv⟩ := worldInv_store hpos h hundisturbed rfl
    exact ⟨_,hlater,hinv,.ended⟩
  | deleting p id owner =>
    rw [SessionWorld.exec] at hexec
    dsimp only at hexec
    split at hexec
    · cases hexec
      exact kept_same h .ended
    · cases hexec
      exact kept_other h rfl rfl rfl rfl rfl (.reading p id)
  | reading p id => exact kept_purgeRead h hexec
  | @dropping p id members hredis hpurged hlisted =>
    cases hexec
    have hholds := purgeDelete_holds h.holds hredis hlisted
    have hsame : withRedis (purgeDelete w.stores id (members.map UuidText.text)) = withRedis w.stores := by cases w.stores <;> rfl
    obtain ⟨hlater,hinv,hnone⟩ := worldInv_forget h hholds hsame (List.Subset.refl w.purged) rfl
    exact ⟨_,hlater,hinv,.finishing p hpurged hnone⟩
  | finishing p hpurged hnone =>
    cases hexec
    exact kept_finish h hpurged hnone hundisturbed
  | event e =>
    cases hexec
    obtain ⟨hlater,hinv⟩ := worldInv_handle h hundisturbed
    exact ⟨v,hlater,hinv,.ended⟩

end Tasks

section Runs
variable {ν : Type} {ttl : Nat} {box : Secretbox ν} {s t : SessionTasks} {a : TaskAction SessionOp (SessionEnv ν)}

def RevocationInv (box : Secretbox ν) (ttl : Nat) (s : SessionTasks) : Prop :=
  ∃ v, WorldInv box ttl v s.shared ∧ ∀ task ∈ s.running, TaskAt v s.shared task

theorem revocationInv_step (hpos : 0 < ttl) (h : RevocationInv box ttl s) (hundisturbed : UndisturbedStep s a)
    (hstep : sessionStep ttl box s a = some t) : RevocationInv box ttl t := by
  obtain ⟨v,hinv,htasks⟩ := h
  rcases taskStep_cases hstep with ⟨op,rfl,rfl⟩ | ⟨i,env,instr,rest,w',outcome,rfl,hi,hexec,rfl⟩
  · refine ⟨v,hinv,fun task htask => ?_⟩
    rcases List.mem_append.mp htask with hold | hnew
    · exact htasks task hold
    · obtain rfl := List.mem_singleton.mp hnew
      cases op with
      | request p r => exact .guarded p r
      | event e => exact .event e
  · have hnext := hundisturbed instr (Tasks.instr_exec hi)
    obtain ⟨v',hlater,hinv',htask⟩ := (kept_exec hpos hinv (htasks _ (List.mem_of_getElem? hi)) hnext hexec).ok
    exact ⟨v',hinv',Tasks.forall_set (fun task hmem => (htasks task hmem).mono hlater) htask⟩

theorem revocationComplete_of_inv (hpos : 0 < ttl) (h : RevocationInv box ttl s) : RevocationComplete ttl box s := by
  obtain ⟨v,hinv,-⟩ := h
  constructor
  · intro id hsettled topic orgIds socket hsocket hsession
    simp [AuthedSocket.receives,hinv.closed id hsettled.1 socket hsocket hsession]
  · intro id hsettled m redisNonce settingsNonce creds hcreds
    have hreply := (credentialCall_holds hpos hinv.holds ⟨s.shared.seconds,.get id m,redisNonce,settingsNonce⟩ (Nat.le_refl _)).2
    simp [vaultStep,Vault.find,hinv.cleared id hsettled.1 m,hcreds] at hreply

theorem revocationInv_initial (withRedis : Bool) (rows : List SessionRow) : RevocationInv box ttl ⟨.initial withRedis rows,[]⟩ := by
  have hseconds : (SessionWorld.initial withRedis rows).seconds = 0 := Nat.zero_div 1000
  refine ⟨fun _ _ => none,⟨?_,?_,?_,?_⟩,?_⟩
  · rw [hseconds]
    cases withRedis with
    | true => exact redisHold_empty
    | false => exact settingsHold_empty
  all_goals simp [SessionWorld.initial]

/-- In every run in which nothing gets between a revocation and what it leaves out. -/
theorem revocation_complete (hpos : 0 < ttl) {withRedis : Bool} {rows : List SessionRow}
    (hrun : Run (sessionStep ttl box) UndisturbedStep ⟨.initial withRedis rows,[]⟩ s) : RevocationComplete ttl box s :=
  revocationComplete_of_inv hpos (hrun.invariant (fun _ _ _ h hundisturbed hstep => revocationInv_step hpos h hundisturbed hstep)
    (revocationInv_initial withRedis rows))

theorem settled_of_idle {id : UuidText} (h : s.isIdle = true) (hreturned : s.shared.returned = [id]) : Settled s id := by
  refine ⟨by simp [hreturned],fun task htask instr hinstr => ?_⟩
  rw [Tasks.idle_of_isIdle h task htask] at hinstr
  simp at hinstr

/-- The row is good, the mailbox may be accessed, and the mail server takes the password. -/
def goodEnv : SessionEnv UInt8 := ⟨true,[js "o"],some (js "a@ex.com"),true,0,1⟩

def sampleRows : List SessionRow := [⟨sampleId,js "u"⟩]

/-- A session unlocks a mailbox and logs out. -/
theorem logout_forgets : ∃ s, Run (sessionStep 3600 sampleBox) UndisturbedStep ⟨.initial true sampleRows,[]⟩ s ∧ Settled s sampleId ∧
    RevocationComplete 3600 sampleBox s := by
  have hactions : (runActions (sessionStep 3600 sampleBox) UndisturbedStep ⟨.initial true sampleRows,[]⟩
      ([.call (.request sampleId (.unlock sampleId (js "pw")))] ++ List.replicate 4 (.exec 0 goodEnv) ++
        [.call (.request sampleId .logout)] ++ List.replicate 5 (.exec 1 goodEnv))).map
          (fun s => (s.isIdle,s.shared.returned)) = some (true,[sampleId]) := by decide +kernel
  obtain ⟨s,hs,hends⟩ := Option.map_eq_some_iff.mp hactions
  obtain ⟨hidle,hreturned⟩ := Prod.mk.inj hends
  have hrun := Run.of_actions hs
  exact ⟨s,hrun,settled_of_idle hidle hreturned,revocation_complete (by decide) hrun⟩

def ownTopic : JsString := js "session:" ++ sampleId.text

/-- A session opens a socket and logs out while it unlocks a mailbox: both the socket and the password stay. -/
theorem socket_outlives_logout : ∃ s, Run (sessionStep 3600 sampleBox) (fun _ _ => True) ⟨.initial true sampleRows,[]⟩ s ∧
    Settled s sampleId ∧ (∃ socket ∈ s.shared.sockets, socket.sessionId = sampleId ∧ socket.receives ownTopic [] = true) ∧
    ¬RevocationComplete 3600 sampleBox s := by
  have hactions : (runActions (sessionStep 3600 sampleBox) (fun _ _ => True) ⟨.initial true sampleRows,[]⟩
      ([.call (.request sampleId (.unlock sampleId (js "pw")))] ++ List.replicate 3 (.exec 0 goodEnv) ++
        [.call (.request sampleId .wsTicket),.exec 1 goodEnv,.exec 1 goodEnv,
         .call (.event (.connect ⟨sampleId,js "u",[js "o"],60⟩)),.exec 2 goodEnv,
         .call (.event (.message 0 (.subscribe ownTopic))),.exec 3 goodEnv,.call (.request sampleId .logout)] ++
        List.replicate 5 (.exec 4 goodEnv) ++ [.exec 0 goodEnv])).map
          (fun s => ((s.isIdle,s.shared.returned),s.shared.sockets.any fun socket => socket.sessionId = sampleId ∧
            socket.receives ownTopic [] = true,
            (s.shared.stores.credentialCall 3600 sampleBox ⟨s.shared.seconds,.get sampleId sampleId,0,0⟩).2)) =
              some ((true,[sampleId]),true,.creds (some ⟨js "a@ex.com",js "pw"⟩)) := by decide +kernel
  obtain ⟨s,hs,hends⟩ := Option.map_eq_some_iff.mp hactions
  obtain ⟨hsettled,hrest⟩ := Prod.mk.inj hends
  obtain ⟨hidle,hreturned⟩ := Prod.mk.inj hsettled
  obtain ⟨hany,hcreds⟩ := Prod.mk.inj hrest
  obtain ⟨socket,hsocket,hreceives⟩ := List.any_eq_true.mp hany
  have hsettled := settled_of_idle hidle hreturned
  exact ⟨s,Run.of_actions hs,hsettled,⟨socket,hsocket,of_decide_eq_true hreceives⟩,
    fun hcomplete => hcomplete.credentials sampleId hsettled sampleId 0 0 _ hcreds⟩

end Runs
end JustMail.Realtime
