import JustMail.Webmail.SieveCompile
import JustMail.Foundation.KeyedTable
import Mathlib.Data.List.Sort

/-! `webmail/sieve.service.ts`: the filter rules of a mailbox, the script they are
compiled into, and its upload over ManageSieve. -/
namespace JustMail.Webmail
open Foundation

structure SieveRuleRequest where
  rule : CompilableRule
  enabled : Bool

/-- A row of `sieve_rules`. Identifiers and times are numbers. -/
structure SieveRuleRow where
  id : Nat
  mailboxId : Nat
  priority : Nat
  createdAt : Nat
  enabled : Bool
  rule : CompilableRule
  scriptSource : JsString

abbrev RuleTable := Table SieveRuleRow.id

/-- `COALESCE((SELECT max(priority) + 1 FROM sieve_rules WHERE mailbox_id = $2), 0)`. -/
def nextPriority (table : RuleTable) (mailboxId : Nat) : Nat :=
  match ((table.rows.filter (·.mailboxId == mailboxId)).map (·.priority)).max? with
  | none => 0
  | some p => p+1

def newRow (now : Nat) (table : RuleTable) (mailboxId id : Nat) (input : SieveRuleRequest) : SieveRuleRow :=
  ⟨id,mailboxId,nextPriority table mailboxId,now,input.enabled,input.rule,compileRule input.rule⟩

def editRow (input : SieveRuleRequest) (row : SieveRuleRow) : SieveRuleRow :=
  { row with enabled := input.enabled, rule := input.rule, scriptSource := compileRule input.rule }

@[simp] theorem editRow_id (input : SieveRuleRequest) (row : SieveRuleRow) : (editRow input row).id = row.id := rfl

/-- `WHERE id = $1 AND mailbox_id = $2`. -/
def isRule (mailboxId id : Nat) (row : SieveRuleRow) : Bool := row.id == id && row.mailboxId == mailboxId

/-- The row statement of a call: the new table, or nothing where no row matches (or
a new id is taken, which a fresh UUID never is). -/
inductive RuleWrite where
  | create (id : Nat) (input : SieveRuleRequest)
  | update (id : Nat) (input : SieveRuleRequest)
  | delete (id : Nat)

def applyWrite (now mailboxId : Nat) (table : RuleTable) : RuleWrite → Option RuleTable
  | .create id input =>
    let row := newRow now table mailboxId id input
    if h : table.lookup row.id = none then some (table.insert row h) else none
  | .update id input =>
    if table.rows.any (isRule mailboxId id) then
      some (table.updateWhere (isRule mailboxId id) (editRow input) (editRow_id input))
    else none
  | .delete id =>
    if table.rows.any (isRule mailboxId id) then some (table.deleteWhere (isRule mailboxId id)) else none

/-- `ORDER BY priority ASC, created_at ASC`. -/
def ruleBefore (a b : SieveRuleRow) : Prop :=
  a.priority < b.priority ∨ (a.priority = b.priority ∧ a.createdAt ≤ b.createdAt)

instance : DecidableRel ruleBefore := fun _ _ => inferInstanceAs (Decidable (_ ∨ _))

def loadRules (table : RuleTable) (mailboxId : Nat) : List SieveRuleRow :=
  (table.rows.filter (·.mailboxId == mailboxId)).insertionSort ruleBefore

def enabledRules (rows : List SieveRuleRow) : List CompilableRule := (rows.filter (·.enabled)).map (·.rule)

/-- The script that the rules in the table ask for. -/
def wantedScript (table : RuleTable) (mailboxId : Nat) : JsString :=
  compileScript (enabledRules (loadRules table mailboxId))

/-- The scripts of a mailbox on the ManageSieve server, as far as the service's own
script name is concerned. -/
structure SieveServer where
  stored : Option JsString
  active : Bool

/-- How far an upload gets. -/
inductive PushOutcome where
  | refused
  | notActivated
  | logoutFailed
  | ok
  deriving DecidableEq

/-- PUTSCRIPT, SETACTIVE, LOGOUT. Replacing the active script leaves it active. -/
def pushScript (server : SieveServer) (script : JsString) : PushOutcome → SieveServer
  | .refused => server
  | .notActivated => { server with stored := some script }
  | .logoutFailed | .ok => ⟨some script,true⟩

def SieveServer.activeScript (server : SieveServer) : Option JsString := if server.active then server.stored else none

def RECONCILE_TTL_SECONDS : Nat := 600

/-- The reconcile lease: when the Redis key runs out, if it is set. Without Redis
there is no lease. -/
def markReconciled (redis : Bool) (now : Nat) (lease : Option Nat) : Option Nat :=
  if redis then some (now + RECONCILE_TTL_SECONDS) else lease

def leaseHeld (redis : Bool) (now : Nat) (lease : Option Nat) : Bool := redis && lease.any (now < ·)

end JustMail.Webmail
