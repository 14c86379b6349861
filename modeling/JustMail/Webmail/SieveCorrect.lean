import JustMail.Webmail.SieveCompile
import JustMail.Foundation.SieveGrammar

/-! What a compiled script says when it is read as Sieve, and what rule names can do
to it. -/
namespace JustMail.Webmail
open Foundation Sieve

def SieveConditionOp.tagName : SieveConditionOp → JsString
  | .contains => js "contains"
  | .is => js "is"
  | .matches => js "matches"

def headerTest (cond : SieveCondition) : Test :=
  .mk (js "header") ⟨[.tag cond.op.tagName,.strings (headersOf cond.field),.strings [cond.value]],.none,[]⟩

/-- A command that ends in a semicolon. -/
def simpleCommand (name : JsString) (args : List Argument) : Command := .mk name ⟨args,.none,[]⟩ none

def actionCommand (action : SieveAction) : Command :=
  match action.type with
  | .fileinto => simpleCommand (js "fileinto") [.tag (js "create"),.strings [action.argText]]
  | .keep => simpleCommand (js "keep") []
  | .discard => simpleCommand (js "discard") []
  | .seen => simpleCommand (js "addflag") [.strings [js "\\Seen"]]
  | .flag => simpleCommand (js "addflag") [.strings [action.argText]]
  | .redirect => simpleCommand (js "redirect") [.strings [action.argText]]
  | .stop => simpleCommand (js "stop") []

def ruleTest (rule : CompilableRule) : Test :=
  match rule.conditions with
  | [cond] => headerTest cond
  | conds => .mk (if rule.match = .any then js "anyof" else js "allof") ⟨[],.list,conds.map headerTest⟩

def ruleCommands (rule : CompilableRule) : List Command :=
  if rule.conditions = [] then rule.actions.map actionCommand
  else [.mk (js "if") ⟨[],.single,[ruleTest rule]⟩ (some (rule.actions.map actionCommand))]

def usesAction (rules : List CompilableRule) (type : SieveActionType) : Bool :=
  rules.any fun rule => rule.actions.any fun action => action.type == type

def extensions (rules : List CompilableRule) : List JsString :=
  (if usesAction rules .fileinto then [js "fileinto",js "mailbox"] else []) ++
  (if usesAction rules .seen ∨ usesAction rules .flag then [js "imap4flags"] else [])

def scriptCommands (rules : List CompilableRule) : List Command :=
  (if extensions rules = [] then [] else [simpleCommand (js "require") [.strings (extensions rules)]]) ++
  rules.flatMap ruleCommands

def stringListTokens (ss : List JsString) : List Token :=
  .lbracket :: ([Token.comma].intercalate (ss.map fun s => [.str s]) ++ [.rbracket])

def conditionTokens (cond : SieveCondition) : List Token :=
  [.ident (js "header"),.tag cond.op.tagName] ++ stringListTokens (headersOf cond.field) ++ [.str cond.value]

def actionTokens (action : SieveAction) : List Token :=
  match action.type with
  | .fileinto => [.ident (js "fileinto"),.tag (js "create"),.str action.argText,.semicolon]
  | .keep => [.ident (js "keep"),.semicolon]
  | .discard => [.ident (js "discard"),.semicolon]
  | .seen => [.ident (js "addflag"),.str (js "\\Seen"),.semicolon]
  | .flag => [.ident (js "addflag"),.str action.argText,.semicolon]
  | .redirect => [.ident (js "redirect"),.str action.argText,.semicolon]
  | .stop => [.ident (js "stop"),.semicolon]

def testTokens (rule : CompilableRule) : List Token :=
  match rule.conditions with
  | [cond] => conditionTokens cond
  | conds => [.ident (if rule.match = .any then js "anyof" else js "allof"),.lparen] ++
      [Token.comma].intercalate (conds.map conditionTokens) ++ [.rparen]

def ruleTokens (rule : CompilableRule) : List Token :=
  if rule.conditions = [] then rule.actions.flatMap actionTokens
  else [.ident (js "if")] ++ testTokens rule ++ [.lbrace] ++ rule.actions.flatMap actionTokens ++ [.rbrace]

def SieveAction.quoted (action : SieveAction) : List JsString :=
  match action.type with
  | .fileinto | .flag | .redirect => [action.argText]
  | _ => []

def CompilableRule.quoted (rule : CompilableRule) : List JsString :=
  rule.conditions.map (·.value) ++ rule.actions.flatMap (·.quoted)

theorem quote_eq (value : JsString) : quote value = quotedText value := by
  have hcode : replaceUnit (unit '"') (js "\\\"") (replaceUnit (unit '\\') (js "\\\\") value) =
      escapeWith BACKSLASH quoteCode value := by
    simp only [replaceUnit,escapeWith,List.flatMap_assoc]
    refine congrArg (List.flatMap · value) (funext fun c => ?_)
    by_cases hb : c = unit '\\'
    · subst hb; decide
    by_cases hq : c = unit '"'
    · subst hq; decide
    have hnone : quoteCode c = none := if_neg (not_or.mpr ⟨hb,hq⟩)
    simp [hb,hq,hnone]
  rw [quote,hcode]
  rfl

theorem piece_quote (value : JsString) : Piece (quote value) (unquotable value) [.str value] := by
  rw [quote_eq]
  exact piece_quotedText value

private theorem piece_headers (ss : List JsString) (hss : ∀ s ∈ ss, unquotable s = false) :
    Piece (js "[" ++ (js ", ").intercalate (ss.map quote) ++ js "]") false (stringListTokens ss) := by
  have hopen : Piece (js "[") false [.lbracket] := rfl
  have hsep : Piece (js ", ") false [.comma] := rfl
  have hclose : Piece (js "]") false [.rbracket] := rfl
  have hlist := (hopen.append (hsep.intercalate ss fun s _ => piece_quote s)).append hclose
  have hok : ss.any unquotable = false := List.any_eq_false.mpr fun s hs => by simp [hss s hs]
  rw [hok] at hlist
  exact hlist

theorem piece_condition (cond : SieveCondition) :
    Piece (compileCondition cond) (unquotable cond.value) (conditionTokens cond) := by
  have hstart : Piece (js "header " ++ OP_TEST cond.op ++ js " ") false
      [.ident (js "header"),.tag cond.op.tagName] := by
    cases cond.op <;> rfl
  have hheaders : ∀ s ∈ headersOf cond.field, unquotable s = false := by
    cases cond.field <;> decide
  have hspace : Piece (js " ") false [] := rfl
  have h := ((hstart.append (piece_headers _ hheaders)).append hspace).append (piece_quote cond.value)
  simpa [compileCondition,headerList,conditionTokens] using h

private theorem piece_argument {start : JsString} {ts : List Token} (h : Piece start false ts) (value : JsString) :
    Piece (start ++ quote value ++ js ";") ([value].any unquotable) (ts ++ [.str value,.semicolon]) := by
  have hend : Piece (js ";") false [.semicolon] := rfl
  have hpiece := (h.append (piece_quote value)).append hend
  simpa using hpiece

theorem piece_action (action : SieveAction) :
    Piece (compileAction action) (action.quoted.any unquotable) (actionTokens action) := by
  obtain ⟨type,arg⟩ := action
  cases type with
  | fileinto =>
    have h : Piece (js "fileinto :create ") false [.ident (js "fileinto"),.tag (js "create")] := rfl
    exact piece_argument h _
  | flag =>
    have h : Piece (js "addflag ") false [.ident (js "addflag")] := rfl
    exact piece_argument h _
  | redirect =>
    have h : Piece (js "redirect ") false [.ident (js "redirect")] := rfl
    exact piece_argument h _
  | keep => rfl
  | discard => rfl
  | seen => rfl
  | stop => rfl

/-- The actions of a rule, each on its own line. -/
private theorem piece_indent (actions : List SieveAction) :
    Piece (indent (actions.map compileAction)) (actions.any fun a => a.quoted.any unquotable)
      (actions.flatMap actionTokens) := by
  have hsep : Piece (js "\n") false [] := rfl
  have hmargin : Piece (js "  ") false [] := rfl
  have h := hsep.spaced actions fun a _ => hmargin.append (piece_action a)
  simpa [indent,Function.comp_def] using h

private theorem piece_test (rule : CompilableRule) :
    Piece (compileTest rule) (rule.conditions.any fun c => unquotable c.value) (testTokens rule) := by
  have hsep : Piece (js ", ") false [.comma] := rfl
  have hclose : Piece (js ")") false [.rparen] := rfl
  have hopen : Piece ((if rule.match = .any then js "anyof" else js "allof") ++ js " (") false
      [.ident (if rule.match = .any then js "anyof" else js "allof"),.lparen] := by
    cases rule.match <;> rfl
  have hlist := (hopen.append (hsep.intercalate rule.conditions fun c _ => piece_condition c)).append hclose
  rw [Bool.false_or,Bool.or_false] at hlist
  unfold compileTest testTokens
  match hconds : rule.conditions with
  | [] =>
    rw [hconds] at hlist
    exact hlist
  | [cond] => simpa using piece_condition cond
  | cond :: cond' :: conds =>
    rw [hconds] at hlist
    exact hlist

/-- Some quoted string of the rule cannot be written. -/
def CompilableRule.unwritable (rule : CompilableRule) : Bool := rule.quoted.any unquotable

/-- The comment line of a rule, as far as the next line. -/
def commentLine (name : JsString) : JsString := js "# " ++ name ++ js "\n"

theorem piece_rule {rule : CompilableRule} {refused : Bool} {ts : List Token}
    (hname : Piece (commentLine rule.name) refused ts) :
    Piece (compileRule rule) (refused || rule.unwritable) (ts ++ ruleTokens rule) := by
  have hbody := piece_indent rule.actions
  have hquoted : rule.unwritable = ((rule.conditions.any fun c => unquotable c.value) ||
      rule.actions.any fun a => a.quoted.any unquotable) := by
    simp [CompilableRule.unwritable,CompilableRule.quoted,List.any_append,List.any_map,List.any_flatMap,
      Function.comp_def]
  by_cases hconds : rule.conditions = []
  · have h := hname.append hbody
    rw [hquoted]
    simpa [compileRule,ruleTokens,commentLine,hconds] using h
  · have hif : Piece (js "if ") false [.ident (js "if")] := rfl
    have hopen : Piece (js " \x7b\n") false [.lbrace] := rfl
    have hclose : Piece (js "\n\x7d") false [.rbrace] := rfl
    have h := hname.append ((((hif.append (piece_test rule)).append hopen).append hbody).append hclose)
    have hbreak : js "\nif " = js "\n" ++ js "if " := rfl
    rw [hquoted]
    simpa [compileRule,ruleTokens,commentLine,hconds,hbreak] using h

private theorem mem_required (rules : List CompilableRule) (r : JsString) :
    r ∈ rules.flatMap (fun rule => rule.actions.flatMap actionRequires) ↔
      ∃ rule ∈ rules, ∃ action ∈ rule.actions, r ∈ actionRequires action := by
  simp [List.mem_flatMap]

private theorem usesAction_iff (rules : List CompilableRule) (type : SieveActionType) :
    usesAction rules type = true ↔ ∃ rule ∈ rules, ∃ action ∈ rule.actions, action.type = type := by
  simp [usesAction]

private theorem requires_fileinto (action : SieveAction) :
    (js "fileinto" ∈ actionRequires action ↔ action.type = .fileinto) ∧
    (js "mailbox" ∈ actionRequires action ↔ action.type = .fileinto) ∧
    (js "imap4flags" ∈ actionRequires action ↔ action.type = .seen ∨ action.type = .flag) := by
  obtain ⟨type,arg⟩ := action
  cases type <;> simp +decide [actionRequires]

theorem collectRequires_eq (rules : List CompilableRule) : collectRequires rules = extensions rules := by
  have hfile : js "fileinto" ∈ rules.flatMap (fun rule => rule.actions.flatMap actionRequires) ↔
      usesAction rules .fileinto = true := by
    simp only [mem_required,usesAction_iff,(requires_fileinto _).1]
  have hbox : js "mailbox" ∈ rules.flatMap (fun rule => rule.actions.flatMap actionRequires) ↔
      usesAction rules .fileinto = true := by
    simp only [mem_required,usesAction_iff,(requires_fileinto _).2.1]
  have hflags : js "imap4flags" ∈ rules.flatMap (fun rule => rule.actions.flatMap actionRequires) ↔
      usesAction rules .seen = true ∨ usesAction rules .flag = true := by
    simp only [mem_required,usesAction_iff,(requires_fileinto _).2.2]
    constructor
    · rintro ⟨rule,hr,action,ha,h | h⟩
      · exact .inl ⟨rule,hr,action,ha,h⟩
      · exact .inr ⟨rule,hr,action,ha,h⟩
    · rintro (⟨rule,hr,action,ha,h⟩ | ⟨rule,hr,action,ha,h⟩)
      · exact ⟨rule,hr,action,ha,.inl h⟩
      · exact ⟨rule,hr,action,ha,.inr h⟩
  unfold collectRequires extensions
  simp only [List.filter_cons,List.filter_nil,decide_eq_true_eq,hfile,hbox,hflags]
  split_ifs <;> rfl

def scriptTokens (rules : List CompilableRule) : List Token :=
  (if extensions rules = [] then [] else
    [.ident (js "require")] ++ stringListTokens (extensions rules) ++ [.semicolon]) ++
  rules.flatMap ruleTokens

private theorem join_parts (part : JsString) (parts : List JsString) :
    (js "\n\n").intercalate (part :: parts) ++ js "\n" =
      part ++ js "\n" ++ parts.flatMap fun p => js "\n" ++ p ++ js "\n" := by
  have hbreaks : js "\n\n" = js "\n" ++ js "\n" := rfl
  induction parts generalizing part with
  | nil => simp
  | cons next parts ih =>
    rw [List.intercalate_cons_cons,List.append_assoc,ih,hbreaks]
    simp

private theorem piece_require (rules : List CompilableRule) :
    Piece (js "require [" ++ (js ", ").intercalate ((extensions rules).map quote) ++ js "];") false
      ([.ident (js "require")] ++ stringListTokens (extensions rules) ++ [.semicolon]) := by
  have hok : ∀ s ∈ extensions rules, unquotable s = false := by
    unfold extensions
    split_ifs <;> decide
  have hstart : Piece (js "require ") false [.ident (js "require")] := rfl
  have hend : Piece (js ";") false [.semicolon] := rfl
  have h := (hstart.append (piece_headers _ hok)).append hend
  have hopen : js "require [" = js "require " ++ js "[" := rfl
  have hclose : js "];" = js "]" ++ js ";" := rfl
  rw [hopen,hclose]
  simpa using h

theorem piece_script (rules : List CompilableRule) (refused : CompilableRule → Bool)
    (hnames : ∀ rule ∈ rules, Piece (commentLine rule.name) (refused rule) []) :
    Piece (compileScript rules) (rules.any fun rule => refused rule || rule.unwritable) (scriptTokens rules) := by
  have hbreak : Piece (js "\n") false [] := rfl
  have hheader : Piece (js "# Generated by JustMail — do not edit; managed via the Filters UI." ++ js "\n") false [] := by
    unfold Piece
    decide +kernel
  have hrules : Piece ((rules.map compileRule).flatMap fun p => js "\n" ++ p ++ js "\n")
      (rules.any fun rule => refused rule || rule.unwritable) (rules.flatMap ruleTokens) := by
    have h := Piece.flatMap rules fun rule hr => (hbreak.append (piece_rule (hnames rule hr))).append hbreak
    simpa [List.flatMap_map] using h
  have hparts : compileScript rules =
      js "# Generated by JustMail — do not edit; managed via the Filters UI." ++ js "\n" ++
      ((if extensions rules = [] then [] else
        js "\n" ++ (js "require [" ++ (js ", ").intercalate ((extensions rules).map quote) ++ js "];") ++ js "\n") ++
      (rules.map compileRule).flatMap fun p => js "\n" ++ p ++ js "\n") := by
    rw [compileScript,scriptParts,collectRequires_eq]
    simp only [List.cons_append,List.nil_append,join_parts,List.flatMap_append]
    by_cases he : extensions rules = []
    · simp [he]
    · rw [if_neg he,if_pos (List.length_pos_iff.mpr he),List.flatMap_singleton]
  have hrequire : Piece (if extensions rules = [] then [] else
        js "\n" ++ (js "require [" ++ (js ", ").intercalate ((extensions rules).map quote) ++ js "];") ++ js "\n") false
      (if extensions rules = [] then [] else
        [.ident (js "require")] ++ stringListTokens (extensions rules) ++ [.semicolon]) := by
    by_cases he : extensions rules = []
    · rw [if_pos he,if_pos he]
      exact .nil
    · rw [if_neg he,if_neg he]
      simpa using (hbreak.append (piece_require rules)).append hbreak
  rw [hparts,scriptTokens]
  simpa using hheader.append (hrequire.append hrules)

section Parsing
variable {ts rest : List Token} {commands : List Command} {a : Arguments Test}

private theorem reads_stringList {ss : List JsString} (hss : ss ≠ [])
    (h : ReadsArguments ts a rest) :
    ReadsArguments (stringListTokens ss ++ ts) { a with args := .strings ss :: a.args } rest := by
  refine h.argument ?_ (by simp only [stringListTokens,List.length_append,List.length_cons]; omega)
  have hlist := parseStrings_list hss ts
  simp only [stringListTokens,List.cons_append,List.append_assoc,List.nil_append,parseArgument,hlist,Option.map_some]

private theorem reads_string (s : JsString) (h : ReadsArguments ts a rest) :
    ReadsArguments (.str s :: ts) { a with args := .strings [s] :: a.args } rest :=
  h.argument rfl (by simp)

private theorem reads_tag (name : JsString) (h : ReadsArguments ts a rest) :
    ReadsArguments (.tag name :: ts) { a with args := .tag name :: a.args } rest :=
  h.argument rfl (by simp)

private theorem reads_condition (cond : SieveCondition) {t : Token} (ht : endsArguments t = true) (ts : List Token) :
    ReadsArguments (.tag cond.op.tagName :: (stringListTokens (headersOf cond.field) ++ .str cond.value :: t :: ts))
      ⟨[.tag cond.op.tagName,.strings (headersOf cond.field),.strings [cond.value]],.none,[]⟩ (t :: ts) := by
  have hheaders : headersOf cond.field ≠ [] := by cases cond.field <;> decide
  exact reads_tag _ (reads_stringList hheaders (reads_string _ (.stop ht ts)))

private theorem reads_conditions {conds : List SieveCondition} (h : conds ≠ []) (ts : List Token) :
    ReadsTests ([Token.comma].intercalate (conds.map conditionTokens) ++ .rparen :: ts) (conds.map headerTest) ts := by
  induction conds with
  | nil => exact absurd rfl h
  | cons cond conds ih =>
    cases conds with
    | nil =>
      have hlast := ReadsTests.last (js "header") (reads_condition cond (t := .rparen) rfl ts)
      simpa [conditionTokens,headerTest] using hlast
    | cons cond' conds =>
      have hrest := ih (by simp)
      have hcons := ReadsTests.cons (js "header") (reads_condition cond (t := .comma) rfl _) hrest
      rw [List.map_cons,List.map_cons,List.intercalate_cons_cons]
      simpa [conditionTokens,headerTest] using hcons

private theorem reads_action (action : SieveAction) (h : ReadsCommands ts commands rest) :
    ReadsCommands (actionTokens action ++ ts) (actionCommand action :: commands) rest := by
  have hstop : ReadsArguments (.semicolon :: ts) .empty (.semicolon :: ts) := .stop rfl ts
  obtain ⟨type,arg⟩ := action
  cases type with
  | fileinto => exact .simple _ (reads_tag _ (reads_string _ hstop)) h
  | keep => exact .simple _ hstop h
  | discard => exact .simple _ hstop h
  | seen => exact .simple _ (reads_string _ hstop) h
  | flag => exact .simple _ (reads_string _ hstop) h
  | redirect => exact .simple _ (reads_string _ hstop) h
  | stop => exact .simple _ hstop h

private theorem reads_actions (actions : List SieveAction) (h : ReadsCommands ts commands rest) :
    ReadsCommands (actions.flatMap actionTokens ++ ts) (actions.map actionCommand ++ commands) rest := by
  induction actions with
  | nil => exact h
  | cons action actions ih =>
    rw [List.flatMap_cons,List.append_assoc]
    exact reads_action action ih

private theorem reads_test {rule : CompilableRule} (h : rule.conditions ≠ []) (ts : List Token) :
    ReadsArguments (testTokens rule ++ .lbrace :: ts) ⟨[],.single,[ruleTest rule]⟩ (.lbrace :: ts) := by
  unfold testTokens ruleTest
  match hconds : rule.conditions with
  | [] => exact absurd hconds h
  | [cond] =>
    have htest := (reads_condition cond (t := .lbrace) rfl ts).test (js "header")
    simpa [conditionTokens,headerTest] using htest
  | cond :: cond' :: conds =>
    have hmany : cond :: cond' :: conds ≠ [] := by simp
    have hlist := reads_conditions hmany (.lbrace :: ts)
    have htest := (ReadsArguments.testList hlist).test (if rule.match = .any then js "anyof" else js "allof")
    simpa using htest

private theorem reads_rule (rule : CompilableRule) (h : ReadsCommands ts commands rest) :
    ReadsCommands (ruleTokens rule ++ ts) (ruleCommands rule ++ commands) rest := by
  unfold ruleTokens ruleCommands
  by_cases hconds : rule.conditions = []
  · rw [if_pos hconds,if_pos hconds]
    exact reads_actions rule.actions h
  · rw [if_neg hconds,if_neg hconds]
    have hbody := reads_actions rule.actions (.endBlock ts)
    have hblock := ReadsCommands.block (js "if") (reads_test hconds _) hbody h
    simpa using hblock

private theorem reads_rules (rules : List CompilableRule) :
    ReadsCommands (rules.flatMap ruleTokens) (rules.flatMap ruleCommands) [] := by
  induction rules with
  | nil => exact .nil
  | cons rule rules ih =>
    rw [List.flatMap_cons,List.flatMap_cons]
    exact reads_rule rule ih

theorem parseTokens_scriptTokens (rules : List CompilableRule) :
    parseTokens (scriptTokens rules) = some (scriptCommands rules) := by
  apply ReadsCommands.parseTokens
  have hrules := reads_rules rules
  unfold scriptTokens scriptCommands
  by_cases he : extensions rules = []
  · simpa [he] using hrules
  · rw [if_neg he,if_neg he]
    have hargs := reads_stringList he (.stop (t := .semicolon) rfl (rules.flatMap ruleTokens))
    simpa [simpleCommand,Arguments.empty] using ReadsCommands.simple (js "require") hargs hrules

theorem parse_compileScript (rules : List CompilableRule) (refused : CompilableRule → Bool)
    (hnames : ∀ rule ∈ rules, Piece (commentLine rule.name) (refused rule) []) :
    parse (compileScript rules) =
      if rules.any fun rule => refused rule || rule.unwritable then none else some (scriptCommands rules) := by
  rw [parse,(piece_script rules refused hnames).lex]
  split
  · rfl
  · rw [Option.bind_some,parseTokens_scriptTokens]

/-- With names of one line, a compiled script parses to the commands of its rules
exactly when no NUL stands in a name or a quoted string and every carriage return in
a quoted string is followed by a line feed. -/
theorem compileScript_correct_iff (rules : List CompilableRule)
    (hnames : ∀ rule ∈ rules, CR ∉ rule.name ∧ LF ∉ rule.name) :
    parse (compileScript rules) = some (scriptCommands rules) ↔
      ∀ rule ∈ rules, NUL ∉ rule.name ∧ ∀ s ∈ rule.quoted, NUL ∉ s ∧ hasBareCr s = false := by
  have hpieces : ∀ rule ∈ rules, Piece (commentLine rule.name) (decide (NUL ∈ rule.name)) [] := by
    intro rule hr
    obtain ⟨hcr,hlf⟩ := hnames rule hr
    have hlf' : LF ∉ unit ' ' :: rule.name := by simp +decide [hlf]
    have hcr' : CR ∉ unit ' ' :: rule.name := by simp +decide [hcr]
    have h := piece_comment hlf' hcr'
    have hnul : NUL ∈ unit ' ' :: rule.name ↔ NUL ∈ rule.name := by simp +decide
    simp only [hnul] at h
    exact h
  have hrefused : (rules.any fun rule => decide (NUL ∈ rule.name) || rule.unwritable) = false ↔
      ∀ rule ∈ rules, NUL ∉ rule.name ∧ ∀ s ∈ rule.quoted, NUL ∉ s ∧ hasBareCr s = false := by
    rw [List.any_eq_false]
    refine forall₂_congr fun rule _ => ?_
    have hquoted : rule.unwritable = false ↔ ∀ s ∈ rule.quoted, NUL ∉ s ∧ hasBareCr s = false := by
      rw [CompilableRule.unwritable,List.any_eq_false]
      exact forall₂_congr fun s _ => by simp [unquotable,and_comm]
    rw [← hquoted]
    simp
  rw [parse_compileScript rules _ hpieces,← hrefused]
  cases rules.any fun rule => decide (NUL ∈ rule.name) || rule.unwritable <;> simp

/-- A rule with text that looks like Sieve in every string. -/
def trickyRule : CompilableRule where
  name := js "# stop; \x7b"
  «match» := .any
  conditions := [⟨.any,.contains,js "a\"; discard; #\\"⟩,⟨.subject,.matches,js "*\r\n\x7d"⟩]
  actions := [⟨.fileinto,some (js "Work/\"x\"")⟩,⟨.seen,none⟩,⟨.stop,some (js "\r")⟩]

theorem trickyRule_correct : parse (compileScript [trickyRule]) = some (scriptCommands [trickyRule]) :=
  (compileScript_correct_iff [trickyRule] (by decide)).mpr (by decide)

/-- A condition value with a bare carriage return. -/
def brokenRule : CompilableRule := ⟨js "Boss",.all,[⟨.subject,.contains,js "a\rb"⟩],[⟨.keep,none⟩]⟩

theorem brokenRule_unparsable :
    (CR ∉ brokenRule.name ∧ LF ∉ brokenRule.name) ∧ (∀ s ∈ brokenRule.quoted, NUL ∉ s) ∧
    parse (compileScript [brokenRule]) ≠ some (scriptCommands [brokenRule]) := by
  refine ⟨by decide,by decide,?_⟩
  have hlex : lex (compileScript [brokenRule]) = none := by decide +kernel
  rw [parse,hlex]
  simp

/-- The comment line of the name is only comment and white space. -/
def Inert (name : JsString) : Prop := scan .initial (commentLine name) = some .initial

instance (name : JsString) : Decidable (Inert name) := inferInstanceAs (Decidable (_ = _))

def CompilableRule.withoutName (rule : CompilableRule) : CompilableRule := { rule with name := [] }

/-- Two rule lists that differ in names only. -/
def SameButNames (rules rules' : List CompilableRule) : Prop :=
  rules.map (·.withoutName) = rules'.map (·.withoutName)

private theorem scriptCommands_withoutName (rules : List CompilableRule) :
    scriptCommands (rules.map (·.withoutName)) = scriptCommands rules := by
  have huses : ∀ type, usesAction (rules.map (·.withoutName)) type = usesAction rules type := by
    intro type
    rw [usesAction,List.any_map]
    rfl
  have hcommands : (rules.map (·.withoutName)).flatMap ruleCommands = rules.flatMap ruleCommands := by
    rw [List.flatMap_map]
    rfl
  have hextensions : extensions (rules.map (·.withoutName)) = extensions rules := by
    simp only [extensions,huses]
  unfold scriptCommands
  rw [hextensions,hcommands]

private theorem parse_of_inert {rules : List CompilableRule} (h : ∀ rule ∈ rules, Inert rule.name) :
    parse (compileScript rules) =
      if rules.any (·.unwritable) then none else some (scriptCommands rules) := by
  simpa using parse_compileScript rules (fun _ => false) h

private theorem mode_after_lf {m m' : Mode} {ts : List Token} (h : advance m Sieve.LF = some (m',ts)) :
    m' = .ground ∨ m' = .bracket ∨ (∃ s, m' = .quoted s) ∨ ∃ s, m' = .textStart s := by
  cases m <;> simp +decide [advance,finishWith,start,quantifier] at h <;> grind

/-- One rule that keeps everything. -/
def keepRule (name : JsString) : CompilableRule := ⟨name,.all,[],[⟨.keep,none⟩]⟩

private theorem compileScript_keepRule (name : JsString) :
    compileScript [keepRule name] =
      js "# Generated by JustMail — do not edit; managed via the Filters UI." ++ js "\n\n" ++
        (commentLine name ++ js "  keep;\n") := by
  have hkeep : js "  keep;\n" = js "  keep;" ++ js "\n" := rfl
  have hparts : scriptParts [keepRule name] =
      [js "# Generated by JustMail — do not edit; managed via the Filters UI.",commentLine name ++ js "  keep;"] := rfl
  rw [compileScript,hparts,List.intercalate_cons_cons,List.intercalate_singleton,hkeep]
  simp only [List.append_assoc]

private theorem unclosed_text (m : Mode) (out : List Token)
    (hm : m = .bracket ∨ (∃ s, m = .quoted s) ∨ ∃ s, m = .textStart s) :
    ∃ st, scan ⟨m,out⟩ (js "  keep;\n") = some st ∧ atEnd st.mode = none := by
  rcases hm with rfl | ⟨s,rfl⟩ | ⟨s,rfl⟩
  · exact ⟨_,rfl,rfl⟩
  · exact ⟨_,rfl,rfl⟩
  · exact ⟨_,rfl,rfl⟩

private theorem commentLine_mode {name : JsString} {st : Scan} (h : scan .initial (commentLine name) = some st) :
    st.mode = .ground ∨ st.mode = .bracket ∨ (∃ s, st.mode = .quoted s) ∨ ∃ s, st.mode = .textStart s := by
  rw [commentLine,scan_append] at h
  obtain ⟨before,-,hlast⟩ := Option.bind_eq_some_iff.mp h
  have hunit : scan before (js "\n") = scanUnit before Sieve.LF := by
    change scan before [Sieve.LF] = _
    rw [scan_cons]
    simp [scan]
  rw [hunit] at hlast
  obtain ⟨p,hp,rfl⟩ := Option.map_eq_some_iff.mp hlast
  exact mode_after_lf hp

private theorem inert_of_parse {name : JsString}
    (h : parse (compileScript [keepRule name]) = some [simpleCommand (js "keep") []]) : Inert name := by
  have hheader : scan .initial
      (js "# Generated by JustMail — do not edit; managed via the Filters UI." ++ js "\n\n") = some .initial := by
    decide +kernel
  have hkeep : scan ⟨.ground,[]⟩ (js "  keep;\n") = some ⟨.ground,[.ident (js "keep"),.semicolon]⟩ := rfl
  rw [parse,lex,compileScript_keepRule,scan_append,hheader,Option.bind_some,scan_append] at h
  obtain ⟨⟨m,out⟩,hscan,h⟩ : ∃ st, scan .initial (commentLine name) = some st ∧
      ((scan st (js "  keep;\n")).bind fun st => (atEnd st.mode).map fun ts => st.tokens ++ ts).bind parseTokens =
        some [simpleCommand (js "keep") []] := by
    cases hscan : scan .initial (commentLine name) with
    | none => simp [hscan] at h
    | some st => exact ⟨st,rfl,by simpa only [hscan,Option.bind_some] using h⟩
  rcases commentLine_mode hscan with rfl | hopen
  · rw [scan_frame,hkeep] at h
    have hparse : parseTokens (out ++ [.ident (js "keep"),.semicolon]) = some [.mk (js "keep") .empty none] := by
      simpa [atEnd,simpleCommand,Arguments.empty] using h
    have htokens := parseTokens_single hparse
    obtain rfl : out = [] := List.append_left_eq_self.mp htokens
    exact hscan
  · obtain ⟨st,hst,hend⟩ := unclosed_text m out hopen
    simp [hst,hend] at h

/-- Rule names taken from `names`, of which one is inert, carry no behaviour exactly
when every one of them is inert. -/
theorem names_carry_nothing_iff (names : Set JsString) (hsome : ∃ name ∈ names, Inert name) :
    (∀ rules rules', SameButNames rules rules' → (∀ rule ∈ rules, rule.name ∈ names) →
      (∀ rule ∈ rules', rule.name ∈ names) → parse (compileScript rules) = parse (compileScript rules')) ↔
      ∀ name ∈ names, Inert name := by
  constructor
  · intro h name hname
    obtain ⟨inert,hin,hinert⟩ := hsome
    have hsame := h [keepRule name] [keepRule inert] rfl (by simpa [keepRule] using hname)
      (by simpa [keepRule] using hin)
    apply inert_of_parse
    rw [hsame,parse_of_inert (by simpa [keepRule] using hinert)]
    rfl
  · intro hall rules rules' hsame hrules hrules'
    have hunwritable : ∀ rs : List CompilableRule, rs.any (·.unwritable) = (rs.map (·.withoutName)).any (·.unwritable) := by
      intro rs
      rw [List.any_map]
      rfl
    rw [parse_of_inert fun rule hr => hall _ (hrules rule hr),parse_of_inert fun rule hr => hall _ (hrules' rule hr),
      hunwritable rules,hunwritable rules',← scriptCommands_withoutName rules,← scriptCommands_withoutName rules',
      show rules.map (·.withoutName) = rules'.map (·.withoutName) from hsame]

theorem plainNames_carry_nothing :
    parse (compileScript [keepRule (js "Newsletters")]) = parse (compileScript [keepRule (js "a; stop; # \"b")]) :=
  (names_carry_nothing_iff {js "Newsletters",js "a; stop; # \"b"} ⟨js "Newsletters",.inl rfl,by decide +kernel⟩).mpr
    (by rintro name (rfl | rfl) <;> decide +kernel) _ _ rfl
    (by rintro rule (_ | ⟨_,⟨⟩⟩); exact .inl rfl) (by rintro rule (_ | ⟨_,⟨⟩⟩); exact .inr rfl)

theorem injectedName_stops :
    (keepRule (js "Work")).Valid ∧ (keepRule (js "Work\nstop;")).Valid ∧
    SameButNames [keepRule (js "Work")] [keepRule (js "Work\nstop;")] ∧
    parse (compileScript [keepRule (js "Work")]) ≠ parse (compileScript [keepRule (js "Work\nstop;")]) := by
  have hvalid : ∀ name : JsString, 1 ≤ name.length ∧ name.length ≤ 120 → (keepRule name).Valid := fun name h =>
    ⟨h,by simp [keepRule],by simp [keepRule],by simp [keepRule],by simp [keepRule]⟩
  refine ⟨hvalid _ (by decide),hvalid _ (by decide),rfl,fun h => ?_⟩
  have hlength := congrArg (Option.map List.length) h
  exact absurd hlength (by decide +kernel)

end Parsing

end JustMail.Webmail
