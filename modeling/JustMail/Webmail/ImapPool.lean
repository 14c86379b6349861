import JustMail.Foundation.CodeUnits
import JustMail.Foundation.KeyedTable
import JustMail.Foundation.Runs

/-! `ImapSessionManager`: one IMAP connection for each session and mailbox, in a map
ordered by last use. A step runs from one `await` to the next. -/
namespace JustMail.Webmail
open Foundation

def imapKey (sessionId mailboxId : JsString) : JsString := sessionId ++ js ":" ++ mailboxId
def imapPrefix (sessionId : JsString) : JsString := sessionId ++ js ":"

/-- Where a call of `run` is: behind others on the chain, in `ensureConnected`, or in the
operation with the client it was given. -/
inductive OpPhase where
  | queued
  | connecting
  | running (client : Nat)
  deriving DecidableEq

/-- An entry of the pool. `chain` has the calls whose result has not settled, in order;
`settling` counts those that have still to pass their `finally`. -/
structure PoolEntry where
  key : JsString
  client : Option Nat
  lastUsed : Nat
  inUse : Nat
  chain : List OpPhase
  settling : Nat

/-- Once the manager has called `logout`, and `close` should that fail, a client is
released. A connection can be lost at any time. -/
inductive ClientStatus where
  | connected
  | lost
  | released
  deriving DecidableEq

/-- A client with the entry it was connected for. -/
structure ImapClient where
  entry : Nat
  status : ClientStatus

structure PoolSlot where
  key : JsString
  entry : Nat
  deriving DecidableEq

/-- Entries and clients live on after the pool has dropped them. -/
structure ImapPool where
  entries : Nat → PoolEntry
  nextEntry : Nat
  clients : Nat → ImapClient
  nextClient : Nat
  pool : Table PoolSlot.key

structure PoolConfig where
  idleTtlMs : Nat
  poolMax : Nat

def ImapPool.initial : ImapPool where
  entries _ := ⟨[],none,0,0,[],0⟩
  nextEntry := 0
  clients _ := ⟨0,.released⟩
  nextClient := 0
  pool := .empty

namespace ImapPool

section Operations
variable (cfg : PoolConfig) (s : ImapPool)

def modify (e : Nat) (f : PoolEntry → PoolEntry) : ImapPool :=
  { s with entries k := if k = e then f (s.entries k) else s.entries k }

def setStatus (c : Nat) (status : ClientStatus) : ImapPool :=
  { s with clients k := if k = c then ⟨(s.clients k).entry,status⟩ else s.clients k }

def deleteKey (key : JsString) : ImapPool := { s with pool := s.pool.deleteWhere fun slot => slot.key = key }

def usable (c : Nat) : Bool := (s.clients c).status = .connected

def closeEntry (e : Nat) : ImapPool :=
  match (s.entries e).client with
  | none => s
  | some c => (s.modify e fun x => { x with client := none }).setStatus c .released

/-- Closing an entry and taking it out of the map. -/
def drop (slot : PoolSlot) : ImapPool := (s.closeEntry slot.entry).deleteKey slot.key

/-- The loop of `evictOverCap` over the slots, oldest first. -/
def evictFrom (current : JsString) : ImapPool → List PoolSlot → ImapPool
  | s, [] => s
  | s, slot :: slots =>
    if s.pool.rows.length ≤ cfg.poolMax then s
    else if slot.key = current ∨ 0 < (s.entries slot.entry).inUse then evictFrom current s slots
    else evictFrom current (s.drop slot) slots

def evictOverCap (current : JsString) : ImapPool := evictFrom cfg current s s.pool.rows

def sweepIdle (now : Nat) : ImapPool :=
  s.pool.rows.foldl (fun s slot =>
    if (s.entries slot.entry).inUse = 0 ∧ (s.entries slot.entry).lastUsed + cfg.idleTtlMs < now then s.drop slot else s) s

def purgeSession (sessionId : JsString) : ImapPool :=
  let doomed := s.pool.rows.filter fun slot => (imapPrefix sessionId).isPrefixOf slot.key
  (doomed.map PoolSlot.key).foldl deleteKey ((doomed.map PoolSlot.entry).foldl closeEntry s)

/-- The entry that `run` works on: the one in the pool, or a new one. -/
def entryFor (key : JsString) (now : Nat) : ImapPool × Nat :=
  match s.pool.lookup key with
  | some slot => (s,slot.entry)
  | none => ({ s with
      entries := fun k => if k = s.nextEntry then ⟨key,none,now,0,[],0⟩ else s.entries k
      nextEntry := s.nextEntry + 1 },s.nextEntry)

/-- The entry moves to the end of the map and has one more call on its chain. -/
def enqueue (key : JsString) (e : Nat) : ImapPool :=
  { s.modify e fun x => { x with inUse := x.inUse + 1, chain := x.chain ++ [.queued] } with
    pool := s.pool.reinsert ⟨key,e⟩ }

def run (key : JsString) (now : Nat) : ImapPool :=
  match s.entryFor key now with
  | (s,e) => s.enqueue key e

def connect (e now : Nat) (rest : List OpPhase) : ImapPool :=
  { s.modify e fun x => { x with client := some s.nextClient, lastUsed := now, chain := .running s.nextClient :: rest } with
    clients := fun k => if k = s.nextClient then ⟨e,.connected⟩ else s.clients k
    nextClient := s.nextClient + 1 }

end Operations

section Fields
variable (s : ImapPool) (e c : Nat) (f : PoolEntry → PoolEntry) (status : ClientStatus) (key : JsString)

@[simp] theorem modify_pool : (s.modify e f).pool = s.pool := rfl
@[simp] theorem modify_clients : (s.modify e f).clients = s.clients := rfl
@[simp] theorem modify_nextEntry : (s.modify e f).nextEntry = s.nextEntry := rfl
@[simp] theorem modify_nextClient : (s.modify e f).nextClient = s.nextClient := rfl
@[simp] theorem setStatus_pool : (s.setStatus c status).pool = s.pool := rfl
@[simp] theorem setStatus_entries : (s.setStatus c status).entries = s.entries := rfl
@[simp] theorem setStatus_nextEntry : (s.setStatus c status).nextEntry = s.nextEntry := rfl
@[simp] theorem setStatus_nextClient : (s.setStatus c status).nextClient = s.nextClient := rfl
@[simp] theorem deleteKey_entries : (s.deleteKey key).entries = s.entries := rfl
@[simp] theorem deleteKey_clients : (s.deleteKey key).clients = s.clients := rfl
@[simp] theorem deleteKey_nextEntry : (s.deleteKey key).nextEntry = s.nextEntry := rfl
@[simp] theorem deleteKey_nextClient : (s.deleteKey key).nextClient = s.nextClient := rfl

theorem modify_self : (s.modify e f).entries e = f (s.entries e) := if_pos rfl

theorem modify_ne {k : Nat} (h : k ≠ e) : (s.modify e f).entries k = s.entries k := if_neg h

@[simp] theorem setStatus_entry (k : Nat) : ((s.setStatus c status).clients k).entry = (s.clients k).entry := by
  by_cases hk : k = c <;> simp [setStatus,hk]

theorem setStatus_status (k : Nat) :
    ((s.setStatus c status).clients k).status = if k = c then status else (s.clients k).status := by
  by_cases hk : k = c <;> simp [setStatus,hk]

theorem mem_deleteKey {slot : PoolSlot} : slot ∈ (s.deleteKey key).pool.rows ↔ slot ∈ s.pool.rows ∧ slot.key ≠ key := by
  change slot ∈ s.pool.rows.filter (fun slot => !decide (slot.key = key)) ↔ _
  simp

end Fields
end ImapPool

inductive PoolAction where
  | run (sessionId mailboxId : JsString) (now : Nat)
  | start (e now : Nat)
  | connected (e now : Nat)
  | connectFailed (e : Nat)
  | settle (e : Nat)
  | finish (e now : Nat)
  | purgeSession (sessionId : JsString)
  | sweepIdle (now : Nat)
  | lose (client : Nat)

/-- The first call on the chain of an entry begins, comes back from `ensureConnected`, or
settles; a call that has settled leaves through its `finally`. -/
def poolStep (cfg : PoolConfig) (s : ImapPool) : PoolAction → Option ImapPool
  | .run sessionId mailboxId now => some (s.run (imapKey sessionId mailboxId) now)
  | .start e now =>
    match (s.entries e).chain with
    | .queued :: rest =>
      match (s.entries e).client.filter s.usable with
      | some c => some (s.modify e fun x => { x with lastUsed := now, chain := .running c :: rest })
      | none => some (s.modify e fun x => { x with chain := .connecting :: rest })
    | _ => none
  | .connected e now =>
    match (s.entries e).chain with
    | .connecting :: rest => some (s.connect e now rest)
    | _ => none
  | .connectFailed e =>
    match (s.entries e).chain with
    | .connecting :: rest => some (s.modify e fun x => { x with chain := rest, settling := x.settling + 1 })
    | _ => none
  | .settle e =>
    match (s.entries e).chain with
    | .running _ :: rest => some (s.modify e fun x => { x with chain := rest, settling := x.settling + 1 })
    | _ => none
  | .finish e now =>
    match (s.entries e).settling with
    | 0 => none
    | settling + 1 =>
      some ((s.modify e fun x => { x with inUse := x.inUse - 1, lastUsed := now, settling := settling }).evictOverCap cfg
        (s.entries e).key)
  | .purgeSession sessionId => some (s.purgeSession sessionId)
  | .sweepIdle now => some (s.sweepIdle cfg now)
  | .lose c => if s.usable c then some (s.setStatus c .lost) else none

/-- What a step can do, with what it has found. -/
inductive PoolMoved (cfg : PoolConfig) (s : ImapPool) : PoolAction → ImapPool → Prop where
  | run (sessionId mailboxId : JsString) (now : Nat) :
      PoolMoved cfg s (.run sessionId mailboxId now) (s.run (imapKey sessionId mailboxId) now)
  | reuses {e now c : Nat} {rest : List OpPhase} (hchain : (s.entries e).chain = .queued :: rest)
      (hclient : (s.entries e).client.filter s.usable = some c) :
      PoolMoved cfg s (.start e now) (s.modify e fun x => { x with lastUsed := now, chain := .running c :: rest })
  | connects {e now : Nat} {rest : List OpPhase} (hchain : (s.entries e).chain = .queued :: rest)
      (hclient : (s.entries e).client.filter s.usable = none) :
      PoolMoved cfg s (.start e now) (s.modify e fun x => { x with chain := .connecting :: rest })
  | connected {e now : Nat} {rest : List OpPhase} (hchain : (s.entries e).chain = .connecting :: rest) :
      PoolMoved cfg s (.connected e now) (s.connect e now rest)
  | rejected {e : Nat} {rest : List OpPhase} (hchain : (s.entries e).chain = .connecting :: rest) :
      PoolMoved cfg s (.connectFailed e) (s.modify e fun x => { x with chain := rest, settling := x.settling + 1 })
  | settled {e c : Nat} {rest : List OpPhase} (hchain : (s.entries e).chain = .running c :: rest) :
      PoolMoved cfg s (.settle e) (s.modify e fun x => { x with chain := rest, settling := x.settling + 1 })
  | finished {e now settling : Nat} (hsettling : (s.entries e).settling = settling + 1) :
      PoolMoved cfg s (.finish e now)
        ((s.modify e fun x => { x with inUse := x.inUse - 1, lastUsed := now, settling := settling }).evictOverCap cfg
        (s.entries e).key)
  | purged (sessionId : JsString) : PoolMoved cfg s (.purgeSession sessionId) (s.purgeSession sessionId)
  | swept (now : Nat) : PoolMoved cfg s (.sweepIdle now) (s.sweepIdle cfg now)
  | lost {c : Nat} (husable : s.usable c = true) : PoolMoved cfg s (.lose c) (s.setStatus c .lost)

theorem poolMoved_of_step {cfg : PoolConfig} {s t : ImapPool} {a : PoolAction} (h : poolStep cfg s a = some t) : PoolMoved cfg s a t := by
  cases a with
  | run sessionId mailboxId now =>
    cases h
    exact .run sessionId mailboxId now
  | purgeSession sessionId =>
    cases h
    exact .purged sessionId
  | sweepIdle now =>
    cases h
    exact .swept now
  | start e now =>
    simp only [poolStep] at h
    split at h
    · rename_i rest hchain
      split at h
      · rename_i c hclient
        cases h
        exact .reuses hchain hclient
      · rename_i hclient
        cases h
        exact .connects hchain hclient
    · simp at h
  | connected e now =>
    simp only [poolStep] at h
    split at h
    · rename_i rest hchain
      cases h
      exact .connected hchain
    · simp at h
  | connectFailed e =>
    simp only [poolStep] at h
    split at h
    · rename_i rest hchain
      cases h
      exact .rejected hchain
    · simp at h
  | settle e =>
    simp only [poolStep] at h
    split at h
    · rename_i c rest hchain
      cases h
      exact .settled hchain
    · simp at h
  | finish e now =>
    simp only [poolStep] at h
    split at h
    · simp at h
    · rename_i settling hsettling
      cases h
      exact .finished hsettling
  | lose c =>
    simp only [poolStep] at h
    split at h
    · rename_i husable
      cases h
      exact .lost husable
    · simp at h

end JustMail.Webmail
