import JustMail.Foundation.CodeUnits

/-! `webmail/sieve-compile.ts`: structured filter rules as the text of one Sieve
script, with the parts of the `SieveRuleRequest` contract it reads. -/
namespace JustMail.Webmail
open Foundation

inductive SieveConditionField where
  | «from» | to | cc | subject | any
  deriving DecidableEq

inductive SieveConditionOp where
  | contains | is | matches
  deriving DecidableEq

structure SieveCondition where
  field : SieveConditionField
  op : SieveConditionOp
  value : JsString
  deriving DecidableEq

inductive SieveActionType where
  | fileinto | keep | discard | seen | flag | redirect | stop
  deriving DecidableEq

/-- `arg` is ignored for keep, discard, seen and stop. -/
structure SieveAction where
  type : SieveActionType
  arg : Option JsString
  deriving DecidableEq

inductive SieveMatch where
  | all | any
  deriving DecidableEq

structure CompilableRule where
  name : JsString
  «match» : SieveMatch
  conditions : List SieveCondition
  actions : List SieveAction
  deriving DecidableEq

/-- The text of an enumeration value that names a header. -/
def SieveConditionField.text : SieveConditionField → JsString
  | .from => js "from"
  | .to => js "to"
  | .cc => js "cc"
  | .subject => js "subject"
  | .any => js "any"

def ANY_HEADERS : List JsString := [js "from",js "to",js "cc",js "subject"]

def OP_TEST : SieveConditionOp → JsString
  | .contains => js ":contains"
  | .is => js ":is"
  | .matches => js ":matches"

/-- Only backslash and double quote are escaped. -/
def quote (value : JsString) : JsString :=
  js "\"" ++ replaceUnit (unit '"') (js "\\\"") (replaceUnit (unit '\\') (js "\\\\") value) ++ js "\""

def headersOf (field : SieveConditionField) : List JsString :=
  if field = .any then ANY_HEADERS else [field.text]

def headerList (field : SieveConditionField) : JsString :=
  js "[" ++ (js ", ").intercalate ((headersOf field).map quote) ++ js "]"

def compileCondition (cond : SieveCondition) : JsString :=
  js "header " ++ OP_TEST cond.op ++ js " " ++ headerList cond.field ++ js " " ++ quote cond.value

def actionRequires (action : SieveAction) : List JsString :=
  match action.type with
  | .fileinto => [js "fileinto",js "mailbox"]
  | .seen | .flag => [js "imap4flags"]
  | _ => []

/-- `action.arg ?? ""`. -/
def SieveAction.argText (action : SieveAction) : JsString := action.arg.getD []

def compileAction (action : SieveAction) : JsString :=
  match action.type with
  | .fileinto => js "fileinto :create " ++ quote action.argText ++ js ";"
  | .keep => js "keep;"
  | .discard => js "discard;"
  | .seen => js "addflag \"\\\\Seen\";"
  | .flag => js "addflag " ++ quote action.argText ++ js ";"
  | .redirect => js "redirect " ++ quote action.argText ++ js ";"
  | .stop => js "stop;"

def indent (lines : List JsString) : JsString := (js "\n").intercalate (lines.map (js "  " ++ ·))

/-- The test of a rule with conditions: its only test, or all of them in one. -/
def compileTest (rule : CompilableRule) : JsString :=
  match rule.conditions.map compileCondition with
  | [test] => test
  | tests => (if rule.match = .any then js "anyof" else js "allof") ++ js " (" ++ (js ", ").intercalate tests ++ js ")"

def compileRule (rule : CompilableRule) : JsString :=
  let body := indent (rule.actions.map compileAction)
  let header := js "# " ++ rule.name
  if rule.conditions = [] then header ++ js "\n" ++ body
  else header ++ js "\nif " ++ compileTest rule ++ js " \x7b\n" ++ body ++ js "\n\x7d"

def collectRequires (rules : List CompilableRule) : List JsString :=
  let present := rules.flatMap fun rule => rule.actions.flatMap actionRequires
  [js "fileinto",js "mailbox",js "imap4flags"].filter fun r => r ∈ present

/-- The parts of the script that blank lines separate. -/
def scriptParts (rules : List CompilableRule) : List JsString :=
  let requires := collectRequires rules
  [js "# Generated by JustMail — do not edit; managed via the Filters UI."] ++
  (if requires.length > 0 then [js "require [" ++ (js ", ").intercalate (requires.map quote) ++ js "];"] else []) ++
  rules.map compileRule

def compileScript (rules : List CompilableRule) : JsString := (js "\n\n").intercalate (scriptParts rules) ++ js "\n"

/-- What `SieveRuleRequest` asks of a rule. Lengths count UTF-16 units. -/
structure CompilableRule.Valid (rule : CompilableRule) : Prop where
  name : 1 ≤ rule.name.length ∧ rule.name.length ≤ 120
  conditionCount : rule.conditions.length ≤ 20
  condition : ∀ c ∈ rule.conditions, 1 ≤ c.value.length ∧ c.value.length ≤ 500
  actionCount : 1 ≤ rule.actions.length ∧ rule.actions.length ≤ 10
  action : ∀ a ∈ rule.actions, ∀ s ∈ a.arg, s.length ≤ 500

end JustMail.Webmail
