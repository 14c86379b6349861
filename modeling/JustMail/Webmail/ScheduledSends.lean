import JustMail.Foundation.CodeUnits
import JustMail.Foundation.KeyedTable
import JustMail.Foundation.Runs

/-! The deferred sends of `webmail.service.ts`: the rows of `scheduled_sends`, the
calls that write them, and any number of `processDueSends` runs. Every SQL statement
and every other awaited operation is one step. -/
namespace JustMail.Webmail
open Foundation

/-- A UUID; only equality is used. -/
abbrev Uuid := Nat

inductive SendStatus where
  | pending | sending | sent | failed | cancelled
  deriving DecidableEq

def SendStatus.terminal : SendStatus → Bool
  | .sent | .failed | .cancelled => true
  | .pending | .sending => false

/-- The columns that the statements read or write. Times are in seconds. -/
structure ScheduledSendRow where
  id : Uuid
  orgId : Uuid
  mailboxId : Uuid
  sendAt : Nat
  status : SendStatus
  attempts : Nat
  lastError : Option JsString
  updatedAt : Nat
  sentAt : Option Nat
  deriving DecidableEq

structure SendConfig where
  claimTimeout : Nat
  retrySeconds : Nat
  maxAttempts : Nat

/-- What a run is waiting for, on its current row. -/
inductive Stage where
  | resolve
  | smtp
  | append
  | bust
  | closeSent
  | closeError (message : JsString)
  deriving DecidableEq

/-- A `processDueSends` call inside its loop: the claimed row it works on, as the
claim returned it, and the rows still to come. -/
structure SendRun where
  stage : Stage
  current : ScheduledSendRow
  rest : List ScheduledSendRow
  deriving DecidableEq

def SendRun.held (run : SendRun) : List ScheduledSendRow := run.current :: run.rest

/-- What the outside can observe of the lifecycle, oldest first in the log. -/
inductive SendEvent where
  | smtpStart (id : Uuid)
  | smtpOk (id : Uuid)
  | cancelled (id : Uuid)
  | mailSent (id : Uuid)
  | mailDeferred (id : Uuid) (attempts : Nat) (error : JsString)
  | mailBounced (id : Uuid) (attempts : Nat) (error : JsString)
  deriving DecidableEq

abbrev SendTable := Table ScheduledSendRow.id

structure SendState where
  now : Nat
  table : SendTable
  runs : Uuid → Option SendRun
  log : List SendEvent

def SendState.initial (now : Nat) : SendState := ⟨now,.empty,fun _ => none,[]⟩

inductive Outcome where
  | ok
  | fault (message : JsString)
  deriving DecidableEq

inductive SendAction where
  | wait (seconds : Nat)
  | send (id orgId mailboxId : Uuid) (sendAt : Nat)
  | cancel (id orgId mailboxId : Uuid)
  | claim (run : Uuid) (ids : List Uuid)
  | proceed (run : Uuid) (outcome : Outcome)
  | crash (run : Uuid)
  deriving DecidableEq

section Statements
variable (cfg : SendConfig)

/-- `(status = 'pending' AND send_at <= now()) OR (status = 'sending' AND updated_at
< now() - timeout)`. -/
def due (now : Nat) (row : ScheduledSendRow) : Bool :=
  (row.status == .pending && row.sendAt ≤ now) ||
  (row.status == .sending && row.updatedAt + cfg.claimTimeout < now)

/-- A result of the claiming subselect, in the order the update returns the rows:
ten due rows, or all of them, none later than one left out. -/
def Selects (now : Nat) (table : SendTable) (ids : List Uuid) : Prop :=
  ids.Nodup ∧ (∀ id ∈ ids, (table.lookup id).any (due cfg now)) ∧
  ids.length = min 10 (table.rows.countP (due cfg now)) ∧
  ∀ row ∈ table.rows, due cfg now row → row.id ∉ ids →
    ∀ id ∈ ids, ∀ chosen ∈ table.lookup id, chosen.sendAt ≤ row.sendAt

instance (now : Nat) (table : SendTable) (ids : List Uuid) : Decidable (Selects cfg now table ids) :=
  inferInstanceAs (Decidable (_ ∧ _ ∧ _ ∧ _))

def claimRow (now : Nat) (row : ScheduledSendRow) : ScheduledSendRow :=
  { row with status := .sending, attempts := row.attempts+1, updatedAt := now }

def cancelRow (now : Nat) (row : ScheduledSendRow) : ScheduledSendRow :=
  { row with status := .cancelled, updatedAt := now }

def sentRow (now : Nat) (row : ScheduledSendRow) : ScheduledSendRow :=
  { row with status := .sent, sentAt := some now, updatedAt := now, lastError := none }

def failedRow (now : Nat) (message : JsString) (row : ScheduledSendRow) : ScheduledSendRow :=
  { row with status := .failed, lastError := some message, updatedAt := now }

def deferredRow (now : Nat) (message : JsString) (row : ScheduledSendRow) : ScheduledSendRow :=
  { row with
    status := .pending, lastError := some message, updatedAt := now, sendAt := now + cfg.retrySeconds }

@[simp] theorem claimRow_id (now : Nat) (row : ScheduledSendRow) : (claimRow now row).id = row.id := rfl
@[simp] theorem cancelRow_id (now : Nat) (row : ScheduledSendRow) : (cancelRow now row).id = row.id := rfl
@[simp] theorem sentRow_id (now : Nat) (row : ScheduledSendRow) : (sentRow now row).id = row.id := rfl
@[simp] theorem failedRow_id (now : Nat) (message : JsString) (row : ScheduledSendRow) :
    (failedRow now message row).id = row.id := rfl
@[simp] theorem deferredRow_id (now : Nat) (message : JsString) (row : ScheduledSendRow) :
    (deferredRow cfg now message row).id = row.id := rfl

def claimRows (now : Nat) (table : SendTable) (ids : List Uuid) : SendTable :=
  table.updateWhere (fun row => row.id ∈ ids) (claimRow now) (claimRow_id now)

/-- The statements that close an attempt are keyed by the id alone. -/
def closeSent (now : Nat) (table : SendTable) (id : Uuid) : SendTable :=
  table.updateWhere (·.id == id) (sentRow now) (sentRow_id now)

/-- Which of the two error updates is made depends on the attempts the claim returned. -/
def closeError (now : Nat) (table : SendTable) (row : ScheduledSendRow) (message : JsString) : SendTable :=
  if row.attempts ≥ cfg.maxAttempts then
    table.updateWhere (·.id == row.id) (failedRow now message) (failedRow_id now message)
  else table.updateWhere (·.id == row.id) (deferredRow cfg now message) (deferredRow_id cfg now message)

/-- The event a finished error update emits. -/
def errorEvent (row : ScheduledSendRow) (message : JsString) : SendEvent :=
  if row.attempts ≥ cfg.maxAttempts then .mailBounced row.id row.attempts message
  else .mailDeferred row.id row.attempts message

end Statements

/-- The next turn of the loop, or the end of the run. -/
def nextRow : List ScheduledSendRow → Option SendRun
  | [] => none
  | row :: rest => some ⟨.resolve,row,rest⟩

def setRun (runs : Uuid → Option SendRun) (r : Uuid) (run : Option SendRun) : Uuid → Option SendRun :=
  fun q => if q = r then run else runs q

/-- `WHERE id = $1 AND org_id = $2 AND mailbox_id = $3 AND status = 'pending'`. -/
def cancellable (id orgId mailboxId : Uuid) (row : ScheduledSendRow) : Bool :=
  row.id == id && row.orgId == orgId && row.mailboxId == mailboxId && row.status == .pending

/-- `cancelScheduledSend`: where no row is cancellable the call throws. -/
def cancelScheduledSend (s : SendState) (id orgId mailboxId : Uuid) : SendState :=
  if s.table.rows.any (cancellable id orgId mailboxId) then
    { s with
      table := s.table.updateWhere (cancellable id orgId mailboxId) (cancelRow s.now) (cancelRow_id s.now)
      log := s.log ++ [.cancelled id] }
  else s

section Steps
variable (cfg : SendConfig)

/-- One awaited operation of a run comes back. A fault while an error is being
recorded leaves the loop; the append to Sent never fails the attempt. -/
def proceed (s : SendState) (r : Uuid) (run : SendRun) (outcome : Outcome) : SendState :=
  let goto := fun stage => setRun s.runs r (some { run with stage })
  let finish := setRun s.runs r (nextRow run.rest)
  let id := run.current.id
  match run.stage, outcome with
  | .resolve, .ok => { s with runs := goto .smtp, log := s.log ++ [.smtpStart id] }
  | .smtp, .ok => { s with runs := goto .append, log := s.log ++ [.smtpOk id] }
  | .append, _ => { s with runs := goto .bust }
  | .bust, .ok => { s with runs := goto .closeSent }
  | .closeSent, .ok => { s with runs := finish, table := closeSent s.now s.table id, log := s.log ++ [.mailSent id] }
  | .closeError message, .ok =>
    { s with
      runs := finish
      table := closeError cfg s.now s.table run.current message
      log := s.log ++ [errorEvent cfg run.current message] }
  | .closeError _, .fault _ => { s with runs := setRun s.runs r none }
  | _, .fault message => { s with runs := goto (.closeError message) }

/-- The transition function; nothing where an action is not possible. -/
def step (s : SendState) : SendAction → Option SendState
  | .wait seconds => some { s with now := s.now + seconds }
  | .send id orgId mailboxId sendAt =>
    let row : ScheduledSendRow := ⟨id,orgId,mailboxId,sendAt,.pending,0,none,s.now,none⟩
    if h : s.table.lookup row.id = none then some { s with table := s.table.insert row h } else none
  | .cancel id orgId mailboxId => some (cancelScheduledSend s id orgId mailboxId)
  | .claim r ids =>
    if s.runs r = none ∧ Selects cfg s.now s.table ids then
      let table := claimRows s.now s.table ids
      some { s with table, runs := setRun s.runs r (nextRow (ids.filterMap table.lookup)) }
    else none
  | .proceed r outcome => (s.runs r).map fun run => proceed cfg s r run outcome
  | .crash r => if (s.runs r).isSome then some { s with runs := setRun s.runs r none } else none

end Steps
end JustMail.Webmail
