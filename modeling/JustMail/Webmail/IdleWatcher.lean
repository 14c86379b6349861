import JustMail.Foundation.Runs
import JustMail.Webmail.ImapPool

/-! `ImapIdleWatcher`: one IMAP connection for each session and mailbox that waits in IDLE.
A step runs from one `await` to the next. -/
namespace JustMail.Webmail
open Foundation

/-- `closing` is a client whose listeners are removed and whose `logout` has been sent. -/
inductive IdleStatus where
  | connecting
  | connected
  | lost
  | closing
  | released
  deriving DecidableEq

structure IdleClient where
  key : JsString
  status : IdleStatus

structure Watcher where
  key : JsString
  folder : JsString
  client : Nat
  touchedAt : Nat

/-- What a call of `watch` waits for. -/
inductive WatchPhase where
  | stopping (client : Nat)
  | connecting (client : Nat)
  | opening (client : Nat)
  deriving DecidableEq

inductive IdleCall where
  | watch (key folder : JsString) (phase : WatchPhase)
  | unwatch (key : JsString) (client : Nat)
  deriving DecidableEq

inductive IdleCallKind where
  | watch
  | unwatch
  | purgeSession
  deriving DecidableEq

/-- `last` is the last call that has come to its end among those that name the key or its
session. -/
structure IdleState where
  clients : Nat → IdleClient
  nextClient : Nat
  watchers : Table Watcher.key
  calls : Nat → Option IdleCall
  nextCall : Nat
  last : JsString → Option IdleCallKind

def IdleState.initial : IdleState where
  clients _ := ⟨[],.released⟩
  nextClient := 0
  watchers := .empty
  calls _ := none
  nextCall := 0
  last _ := none

namespace IdleState

section Operations
variable (s : IdleState)

def setStatus (c : Nat) (status : IdleStatus) : IdleState :=
  { s with clients := fun k => if k = c then ⟨(s.clients k).key,status⟩ else s.clients k }

def setCall (i : Nat) (call : Option IdleCall) : IdleState :=
  { s with calls := fun k => if k = i then call else s.calls k }

def addCall (call : IdleCall) : IdleState :=
  { s.setCall s.nextCall (some call) with nextCall := s.nextCall + 1 }

def complete (p : JsString → Bool) (kind : IdleCallKind) : IdleState :=
  { s with last := fun key => if p key then some kind else s.last key }

def deleteKey (key : JsString) : IdleState := { s with watchers := s.watchers.deleteWhere fun w => w.key = key }

def usable (c : Nat) : Bool := (s.clients c).status = .connected

/-- A watcher is taken out of the map and `stop` is called on it. -/
def discard (w : Watcher) : IdleState := (s.deleteKey w.key).setStatus w.client .closing

def touch (key : JsString) (now : Nat) : IdleState :=
  { s with watchers := s.watchers.updateWhere (fun w => w.key = key) (fun w => { w with touchedAt := now }) fun _ => rfl }

/-- A client is made, and its `connect` called. -/
def newClient (key : JsString) : IdleState :=
  { s with
    clients := fun k => if k = s.nextClient then ⟨key,.connecting⟩ else s.clients k
    nextClient := s.nextClient + 1 }

def watch (key folder : JsString) (now : Nat) : IdleState :=
  match s.watchers.lookup key with
  | some w =>
    if w.folder = folder ∧ s.usable w.client = true then (s.touch key now).complete (· = key) .watch
    else (s.discard w).addCall (.watch key folder (.stopping w.client))
  | none => (s.newClient key).addCall (.watch key folder (.connecting s.nextClient))

def unwatch (key : JsString) : IdleState :=
  match s.watchers.lookup key with
  | none => s.complete (· = key) .unwatch
  | some w => (s.discard w).addCall (.unwatch key w.client)

def purgeSession (sessionId : JsString) : IdleState :=
  let doomed := s.watchers.rows.filter fun w => (imapPrefix sessionId).isPrefixOf w.key
  (doomed.foldl discard s).complete (imapPrefix sessionId).isPrefixOf .purgeSession

def sweepIdle (ttlMs now : Nat) : IdleState :=
  (s.watchers.rows.filter fun w => w.touchedAt + ttlMs < now).foldl discard s

/-- The client is registered, in the place of any other under its key. -/
def register (key folder : JsString) (c now : Nat) : IdleState :=
  { s with watchers := s.watchers.upsert ⟨key,folder,c,now⟩ }

/-- The connection breaks. The listener forgets the watcher if the client is its own. -/
def lose (c : Nat) : IdleState :=
  { s.setStatus c .lost with
    watchers := s.watchers.deleteWhere fun w => w.key = (s.clients c).key ∧ w.client = c }

end Operations

section Fields
variable (s : IdleState) (c k i : Nat) (status : IdleStatus)

@[simp] theorem setStatus_key : ((s.setStatus c status).clients k).key = (s.clients k).key := by
  by_cases hk : k = c <;> simp [setStatus,hk]

theorem setStatus_status : ((s.setStatus c status).clients k).status = if k = c then status else (s.clients k).status := by
  by_cases hk : k = c <;> simp [setStatus,hk]

theorem setCall_calls (call : Option IdleCall) : (s.setCall i call).calls k = if k = i then call else s.calls k := rfl

theorem lookup_deleteKey (key name : JsString) :
    (s.deleteKey key).watchers.lookup name = if name = key then none else s.watchers.lookup name := by
  change (s.watchers.deleteWhere fun w => w.key = key).lookup name = _
  rw [Table.lookup_deleteWhere]
  cases hname : s.watchers.lookup name with
  | none => simp
  | some w =>
    have hkey := Table.key_of_lookup hname
    by_cases hsame : name = key <;> simp [hkey,hsame]

theorem lookup_discard (w : Watcher) (name : JsString) :
    (s.discard w).watchers.lookup name = if name = w.key then none else s.watchers.lookup name := s.lookup_deleteKey w.key name

@[simp] theorem discard_key (w : Watcher) : ((s.discard w).clients k).key = (s.clients k).key :=
  (s.deleteKey w.key).setStatus_key w.client k .closing

end Fields
end IdleState

inductive IdleAction where
  | watch (sessionId mailboxId folder : JsString) (now : Nat)
  | unwatch (sessionId mailboxId : JsString)
  | purgeSession (sessionId : JsString)
  | sweepIdle (now : Nat)
  | stopped (client : Nat)
  | proceed (call : Nat)
  | connected (call : Nat)
  | connectFailed (call : Nat)
  | opened (call now : Nat)
  | openFailed (call : Nat)
  | lose (client : Nat)

/-- A call is made, or comes back from what it waits for. `stop` ends with the client
logged out or closed. -/
def idleStep (ttlMs : Nat) (s : IdleState) : IdleAction → Option IdleState
  | .watch sessionId mailboxId folder now => some (s.watch (imapKey sessionId mailboxId) folder now)
  | .unwatch sessionId mailboxId => some (s.unwatch (imapKey sessionId mailboxId))
  | .purgeSession sessionId => some (s.purgeSession sessionId)
  | .sweepIdle now => some (s.sweepIdle ttlMs now)
  | .stopped c => if (s.clients c).status = .closing then some (s.setStatus c .released) else none
  | .proceed i =>
    match s.calls i with
    | some (.watch key folder (.stopping c)) =>
      if (s.clients c).status = .released then some ((s.newClient key).setCall i (some (.watch key folder (.connecting s.nextClient))))
      else none
    | some (.unwatch key c) =>
      if (s.clients c).status = .released then some ((s.setCall i none).complete (· = key) .unwatch) else none
    | _ => none
  | .connected i =>
    match s.calls i with
    | some (.watch key folder (.connecting c)) => some ((s.setStatus c .connected).setCall i (some (.watch key folder (.opening c))))
    | _ => none
  | .connectFailed i =>
    match s.calls i with
    | some (.watch _ _ (.connecting c)) => some ((s.setStatus c .lost).setCall i none)
    | _ => none
  | .opened i now =>
    match s.calls i with
    | some (.watch key folder (.opening c)) => some (((s.register key folder c now).setCall i none).complete (· = key) .watch)
    | _ => none
  | .openFailed i =>
    match s.calls i with
    | some (.watch _ _ (.opening _)) => some (s.setCall i none)
    | _ => none
  | .lose c => if (s.clients c).status = .connected then some (s.lose c) else none

end JustMail.Webmail
