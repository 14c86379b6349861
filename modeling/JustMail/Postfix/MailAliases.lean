import JustMail.Foundation.CodeUnits
import JustMail.Foundation.KeyedTable

/-! The `mail_aliases` view of `migrations/0016_mail_groups.sql` over the tables it
reads, and the lookup Postfix makes in it (`virtual_alias_maps`, `pgsql/aliases.cf`). -/
namespace JustMail.Postfix
open Foundation

def AT : CodeUnit := unit '@'
def COMMA : CodeUnit := unit ','

def isAlphanumeric (c : CodeUnit) : Bool := (97 ≤ c && c ≤ 122) || (48 ≤ c && c ≤ 57)

/-- The class `[a-z0-9._%+-]`. -/
def isLocalPartUnit (c : CodeUnit) : Bool := isAlphanumeric c || (js "._%+-").contains c

/-- The units of a hostname. Where dots and hyphens may stand is not read here. -/
def isHostnameUnit (c : CodeUnit) : Bool := isAlphanumeric c || (js ".-").contains c

/-- `LocalPart`, after its transformation to lower case. -/
@[ext] structure LocalPart where
  text : JsString
  length : 1 ≤ text.length ∧ text.length ≤ 64
  units : ∀ c ∈ text, isLocalPartUnit c = true
  deriving DecidableEq

@[ext] structure Hostname where
  text : JsString
  length : 1 ≤ text.length ∧ text.length ≤ 253
  units : ∀ c ∈ text, isHostnameUnit c = true
  deriving DecidableEq

/-- `Email`, as far as the view depends on it. -/
structure Email where
  text : JsString
  length : 1 ≤ text.length ∧ text.length ≤ 254
  noComma : COMMA ∉ text
  deriving DecidableEq

/-- The text by which `citext` values are compared where they are ASCII, as domains and local parts are. -/
def citext (s : JsString) : JsString := s.map asciiLower

inductive DomainStatus where
  | pendingVerification | verifying | active | suspended
  deriving DecidableEq

structure DomainRow where
  id : Nat
  name : Hostname
  status : DomainStatus
  catchAllTarget : Option Email

inductive MailboxStatus where
  | active | suspended | disabled
  deriving DecidableEq

structure MailboxRow where
  id : Nat
  domainId : Nat
  localPart : LocalPart
  status : MailboxStatus
  forwardTo : List Email
  forwardKeepCopy : Bool

structure AliasRow where
  id : Nat
  domainId : Nat
  source : LocalPart
  destinations : List Email
  enabled : Bool

structure GroupRow where
  id : Nat
  domainId : Nat
  localPart : LocalPart
  enabled : Bool

structure GroupMemberRow where
  id : Nat
  groupId : Nat
  address : Email

/-- The tables, with their unique constraints. -/
structure MailDb where
  domains : Table DomainRow.id
  mailboxes : Table MailboxRow.id
  aliases : Table AliasRow.id
  groups : Table GroupRow.id
  members : Table GroupMemberRow.id
  domainName : (domains.rows.map (·.name)).Nodup
  mailboxAddress : (mailboxes.rows.map fun m => (m.domainId,m.localPart)).Nodup
  aliasSource : (aliases.rows.map fun a => (a.domainId,a.source)).Nodup
  groupAddress : (groups.rows.map fun g => (g.domainId,g.localPart)).Nodup

/-- A row of the view. -/
structure AliasEntry where
  source : JsString
  destinations : JsString

/-- `local_part || '@' || d.name`. -/
def address (localPart : LocalPart) (d : DomainRow) : JsString := localPart.text ++ AT :: d.name.text

/-- `array_to_string(.., ',')` and `string_agg(.., ',')`. -/
def arrayToString (texts : List JsString) : JsString := [COMMA].intercalate texts

/-- `JOIN domains d ON d.id = r.domain_id` with the rest of the branch. -/
def joinDomains {ρ : Type} (db : MailDb) (rows : List ρ) (domainId : ρ → Nat)
    (branch : ρ → DomainRow → Option AliasEntry) : List AliasEntry :=
  rows.filterMap fun r => (db.domains.lookup (domainId r)).bind (branch r)

def aliasBranch (a : AliasRow) (d : DomainRow) : Option AliasEntry :=
  if a.enabled ∧ d.status = .active then some ⟨address a.source d,arrayToString (a.destinations.map (·.text))⟩ else none

def forwardBranch (m : MailboxRow) (d : DomainRow) : Option AliasEntry :=
  if m.status = .active ∧ d.status = .active ∧ m.forwardTo.length > 0 then
    let forwards := m.forwardTo.map (·.text)
    some ⟨address m.localPart d,
      arrayToString (if m.forwardKeepCopy then forwards ++ [address m.localPart d] else forwards)⟩
  else none

def catchAllBranch (d : DomainRow) : Option AliasEntry :=
  if d.status = .active then d.catchAllTarget.map fun target => ⟨AT :: d.name.text,target.text⟩ else none

/-- A group without members has no row. The unique constraints make each group of the
`GROUP BY` one mail group. -/
def groupBranch (db : MailDb) (g : GroupRow) (d : DomainRow) : Option AliasEntry :=
  let members := (db.members.rows.filter (·.groupId = g.id)).map (·.address.text)
  if g.enabled ∧ d.status = .active ∧ members ≠ [] then some ⟨address g.localPart d,arrayToString members⟩ else none

def mailAliases (db : MailDb) : List AliasEntry :=
  joinDomains db db.aliases.rows (·.domainId) aliasBranch ++
  joinDomains db db.mailboxes.rows (·.domainId) forwardBranch ++
  db.domains.rows.filterMap catchAllBranch ++
  joinDomains db db.groups.rows (·.domainId) (groupBranch db)

/-- `SELECT destinations FROM mail_aliases WHERE source = '%s'`. -/
def aliasesQuery (view : List AliasEntry) (key : JsString) : List JsString :=
  (view.filter fun e => citext e.source = citext key).map (·.destinations)

/-- The addresses in all rows of the answer. None of them means there is no entry. -/
def lookupAddresses (view : List AliasEntry) (key : JsString) : List JsString :=
  (((aliasesQuery view key).flatMap (·.splitOn COMMA)).filter (· ≠ [])).map citext

/-- `'@domain'` for the part after the last `@`. -/
def domainKey (a : JsString) : Option JsString :=
  if AT ∈ a then some (AT :: a.rtakeWhile (· ≠ AT)) else none

/-- The exact address first, then `'@domain'`. -/
def virtualAlias (view : List AliasEntry) (a : JsString) : Option (List JsString) :=
  let exact := lookupAddresses view a
  let found := if exact = [] then ((domainKey a).map (lookupAddresses view)).getD [] else exact
  if found = [] then none else some found

end JustMail.Postfix
