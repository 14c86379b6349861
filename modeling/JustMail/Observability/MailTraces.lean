import JustMail.Foundation.Expansion
import JustMail.Foundation.Utf16
import JustMail.Postfix.MailAliases
import Mathlib.Data.List.Perm.Basic
import Mathlib.Data.List.Sort

/-! Mail events: what is read off the log lines of the mail servers, and what an organisation sees of them. -/
namespace JustMail.Observability
open Foundation Postfix

/-- The class `\w`. -/
def isWord (c : CodeUnit) : Bool := isAlphanumeric (asciiLower c) || c == unit '_'
def isDigit (c : CodeUnit) : Bool := 48 ≤ c && c ≤ 57
def isHex (c : CodeUnit) : Bool := isDigit c || (97 ≤ asciiLower c && asciiLower c ≤ 102)
def isLineTerminator (c : CodeUnit) : Bool := c == 10 || c == 13 || c == 0x2028 || c == 0x2029

def literal (text s : JsString) : Option JsString := if text.isPrefixOf s then some (s.drop text.length) else none

/-- Without regard to case, for a text in lower case. -/
def literalCi (text s : JsString) : Option JsString :=
  if (s.take text.length).map asciiLower = text then some (s.drop text.length) else none

/-- A longest run of at least one unit of a class. -/
def many1 (p : CodeUnit → Bool) (s : JsString) : Option (JsString × JsString) :=
  if s.takeWhile p = [] then none else some (s.takeWhile p,s.dropWhile p)

/-- The first place where a pattern matches. -/
def search {α : Type} (p : JsString → Option α) : JsString → Option α
  | [] => p []
  | c :: s => (p (c :: s)).or (search p s)

/-- The pattern after `.*?`. -/
def lazily {α : Type} (p : JsString → Option α) : JsString → Option α
  | [] => p []
  | c :: s => (p (c :: s)).or (if isLineTerminator c then none else lazily p s)

/-- `-?\d+(?:\.\d+)?` -/
def decimal (s : JsString) : Option (JsString × JsString) :=
  let sign := if s.head? = some (unit '-') then [unit '-'] else []
  (many1 isDigit (s.drop sign.length)).map fun (whole,rest) =>
    match (literal (js ".") rest).bind (many1 isDigit) with
    | some (fraction,rest) => (sign ++ whole ++ js "." ++ fraction,rest)
    | none => (sign ++ whole,rest)

/-- `POSTFIX_QID`: the component and the queue id. -/
def postfixQid (s : JsString) : Option (JsString × JsString) := do
  let s ← literalCi (js "postfix/") s
  let (component,s) ← many1 isWord s
  let s ← literal (js "[") s
  let (_,s) ← many1 isDigit s
  let s ← literal (js "]:") s
  let (_,s) ← many1 isSpace s
  let (queueId,s) ← many1 isHex s
  let _ ← literal (js ":") s
  if 8 ≤ queueId.length then some (component,queueId) else none

/-- `KV` at the start of the text, and what follows it. -/
def keyValue (s : JsString) : Option ((JsString × JsString) × JsString) := do
  let (key,s) ← many1 isWord s
  let s ← literal (js "=") s
  let quoted := (literal (js "<") s).bind (cut (unit '>'))
  let (value,s) ← quoted.or (many1 (fun c => !isSpace c && c != COMMA) s)
  some ((key,value),s)

/-- `matchAll(KV)`; a match takes at least one unit. -/
def keyValues : Nat → JsString → List (JsString × JsString)
  | 0, _ => []
  | n+1, s =>
    match keyValue s with
    | some (kv,rest) => kv :: keyValues n rest
    | none => keyValues n s.tail

/-- The last value of a key. -/
def field (message key : JsString) : Option JsString := (keyValues message.length message).reverse.lookup key

section Parsing

inductive Direction where
  | inbound | outbound
  deriving DecidableEq

structure ParsedEvent (ν : Type) where
  event : JsString
  direction : Option Direction
  queueId : Option JsString
  fromAddr : Option JsString
  toAddr : Option JsString
  sizeBytes : Option ν
  spamScore : Option ν
  spamAction : Option JsString
  tlsVersion : Option JsString
  dsn : Option JsString

variable {ν : Type}

/-- `EMPTY`, with an event. -/
def ParsedEvent.named (event : JsString) : ParsedEvent ν := ⟨event,none,none,none,none,none,none,none,none,none⟩

/-- What the language and the database do with texts and numbers: `Number`, the time of `new Date`, the value
that an integer column gets, and the order and the lower case of texts under the collation. -/
structure Builtins (ν : Type) where
  number : JsString → ν
  date : JsString → Option Int
  int4 : ν → Option Int
  greater : JsString → JsString → Bool
  lower : JsString → JsString

def truthy (text : Option JsString) : Option JsString := text.filter (!·.isEmpty)

def directionOf (component : JsString) : Option Direction :=
  if component = js "smtpd" ∨ component = js "cleanup" then some .inbound
  else if component = js "smtp" ∨ component = js "pipe" ∨ component = js "lmtp" then some .outbound
  else none

variable (b : Builtins ν)

def parsePostfix (message : JsString) : Option (ParsedEvent ν) :=
  (search postfixQid message).map fun (component,queueId) =>
    let kv := field message
    let event := match truthy (kv (js "status")),truthy (kv (js "dsn")) with
      | some status,some _ => js "postfix." ++ component ++ js "." ++ status
      | _,_ => js "postfix." ++ component
    { ParsedEvent.named event with
      direction := directionOf component
      queueId := some queueId
      fromAddr := kv (js "from")
      toAddr := kv (js "to")
      sizeBytes := (truthy (kv (js "size"))).map b.number
      dsn := kv (js "dsn") }

def isAuthFailure (message : JsString) : Bool :=
  [js "auth failed",js "authentication failure",js "SASL LOGIN authentication failed",js "SASL PLAIN authentication failed"].any
    fun text => (search (literal text) message).isSome

def isUserUnit (c : CodeUnit) : Bool := isWord c || (js ".@+-").contains c

def userOf (message : JsString) : Option JsString :=
  search (fun s => do
    let s ← literal (js "user=") s
    let (user,_) ← many1 isUserUnit ((literal (js "<") s).getD s)
    some user) message

def loginOf (message : JsString) : Option JsString :=
  search (fun s => do
    let s ← literal (js "Login: user=<") s
    let (user,s) ← many1 (· != unit '>') s
    let _ ← literal (js ">") s
    some user) message

def tlsOf (message : JsString) : Option JsString :=
  search (fun s => do
    let s ← literalCi (js "tls") s
    let (version,_) ← many1 (fun c => isDigit c || c == unit '.') ((literalCi (js "v") s).getD s)
    some version) message

def parseDovecot (message : JsString) : Option (ParsedEvent ν) :=
  if isAuthFailure message then some { ParsedEvent.named (js "dovecot.auth_failed") with toAddr := userOf message }
  else (loginOf message).map fun user => { ParsedEvent.named (js "dovecot.login") with toAddr := some user, tlsVersion := tlsOf message }

def actionAt (s : JsString) : Option JsString := do
  let s ← literal (js "action=") s
  let (action,_) ← many1 (fun c => isWord c || c == unit '-') s
  some action

def scoreAt (s : JsString) : Option (JsString × JsString) := do
  let s ← literal (js "score=") s
  let (score,s) ← decimal s
  let s ← literal (js "/") (trimStart s)
  let (_,s) ← decimal (trimStart s)
  let action ← lazily actionAt s
  some (score,action)

def rspamdAt (s : JsString) : Option (JsString × JsString × JsString) := do
  let s ← literal (js "<") s
  let (qid,s) ← many1 isAlphanumeric s
  let s ← literal (js ">;") s
  let (_,s) ← many1 isSpace s
  let s ← literal (js "task;") s
  let (score,action) ← lazily scoreAt s
  some (qid,score,action)

def parseRspamd (message : JsString) : Option (ParsedEvent ν) :=
  (search rspamdAt message).map fun (qid,score,action) =>
    { ParsedEvent.named (js "rspamd." ++ action) with
      queueId := some qid, spamScore := some (b.number score), spamAction := some action }

def parseByService (service message : JsString) : ParsedEvent ν :=
  let trimmed := trim message
  let parsed :=
    if service = js "postfix" then parsePostfix b trimmed
    else if service = js "dovecot" then parseDovecot trimmed
    else if service = js "rspamd" then parseRspamd b trimmed
    else none
  parsed.getD (.named ((if service.isEmpty then js "unknown" else service) ++ js ".log"))

end Parsing

section Ingest
variable {ν : Type}

structure Envelope where
  sender : JsString
  recipients : List JsString
  deriving DecidableEq

/-- An entry of the body of `ingest`, with the id that its row is given. `about` is the message that the line
is a line of, which the program does not see. -/
structure LogLine where
  service : Option JsString
  message : Option JsString
  timestamp : Option JsString
  drawnId : Nat
  about : Option Envelope
  deriving DecidableEq

structure IngestCall where
  now : Int
  lines : List LogLine
  deriving DecidableEq

/-- A row of `mail_events`. The columns that are left out are never filled and never read. -/
structure MailEventRow (ν : Type) where
  id : Nat
  orgId : Option Nat
  queueId : Option JsString
  direction : Option Direction
  event : JsString
  fromAddr : Option JsString
  toAddr : Option JsString
  relay : Option JsString
  sizeBytes : Option Int
  spamScore : Option ν
  spamAction : Option JsString
  tlsVersion : Option JsString
  dsn : Option JsString
  detail : JsString
  occurredAt : Int
  deriving DecidableEq

abbrev MailEvents (ν : Type) := Table (MailEventRow.id (ν := ν))

/-- A text in a column: lone surrogates are replaced, and a NUL is refused. -/
def column (text : JsString) : Option JsString := if 0 ∈ text then none else some ((scalars text).flatMap utf16)

def optionalColumn (text : Option JsString) : Option (Option JsString) :=
  match text with
  | none => some none
  | some text => (column text).map some

variable (b : Builtins ν)

def intColumn (number : Option ν) : Option (Option Int) :=
  match number with
  | none => some none
  | some number => (b.int4 number).map some

def LogLine.text (line : LogLine) : JsString := (line.message.getD []).take 4000

/-- The row of a line; nothing if the database refuses a value. -/
def LogLine.row (line : LogLine) (now : Int) : Option (MailEventRow ν) := do
  let message := line.text
  let parsed := parseByService b ((line.service.getD (js "unknown")).take 32) message
  let size ← intColumn b parsed.sizeBytes
  let event ← column parsed.event
  let queueId ← optionalColumn parsed.queueId
  let fromAddr ← optionalColumn parsed.fromAddr
  let toAddr ← optionalColumn parsed.toAddr
  let spamAction ← optionalColumn parsed.spamAction
  let tlsVersion ← optionalColumn parsed.tlsVersion
  let dsn ← optionalColumn parsed.dsn
  let detail ← column message
  some { id := line.drawnId, orgId := none, queueId, direction := parsed.direction, event, fromAddr, toAddr, relay := none,
         sizeBytes := size, spamScore := parsed.spamScore, spamAction, tlsVersion, dsn, detail,
         occurredAt := ((truthy line.timestamp).bind b.date).getD now }

def IngestCall.rows (call : IngestCall) : Option (List (MailEventRow ν)) :=
  (call.lines.filter (!·.text.isEmpty)).mapM (·.row b call.now)

def insertAll : MailEvents ν → List (MailEventRow ν) → Option (MailEvents ν)
  | t, [] => some t
  | t, row :: rows => if h : t.lookup row.id = none then insertAll (t.insert row h) rows else none

/-- One INSERT for the whole call. -/
def ingest (t : MailEvents ν) (call : IngestCall) : MailEvents ν := ((call.rows b).bind (insertAll t)).getD t

def stored (history : List IngestCall) : MailEvents ν := history.foldl (ingest b) .empty

/-- `(org_id = $1 OR org_id IS NULL)` -/
def MailEventRow.visible (row : MailEventRow ν) (orgId : Nat) : Bool := row.orgId.all (· == orgId)

/-- The rows in the order of their key; SQL promises none. -/
def scan (t : MailEvents ν) : List (MailEventRow ν) := t.rows.insertionSort (·.id ≤ ·.id)

structure RecentEvent (ν : Type) where
  id : Nat
  occurredAt : Int
  event : JsString
  direction : Option Direction
  fromAddr : Option JsString
  toAddr : Option JsString
  sizeBytes : Option Int
  spamScore : Option ν
  spamAction : Option JsString
  tlsVersion : Option JsString
  dsn : Option JsString
  queueId : Option JsString
  detail : JsString
  deriving DecidableEq

structure TraceEvent (ν : Type) where
  event : JsString
  direction : Option Direction
  fromAddr : Option JsString
  toAddr : Option JsString
  relay : Option JsString
  dsn : Option JsString
  spamScore : Option ν
  spamAction : Option JsString
  tlsVersion : Option JsString
  sizeBytes : Option Int
  detail : JsString
  occurredAt : Int
  deriving DecidableEq

structure DeferredMessage where
  queueId : JsString
  fromAddr : Option JsString
  toAddr : Option JsString
  dsn : Option JsString
  lastSeen : Int
  attempts : Nat
  deriving DecidableEq

def MailEventRow.recentEvent (r : MailEventRow ν) : RecentEvent ν :=
  ⟨r.id,r.occurredAt,r.event,r.direction,r.fromAddr,r.toAddr,r.sizeBytes,r.spamScore,r.spamAction,r.tlsVersion,r.dsn,r.queueId,r.detail⟩

def MailEventRow.traceEvent (r : MailEventRow ν) : TraceEvent ν :=
  ⟨r.event,r.direction,r.fromAddr,r.toAddr,r.relay,r.dsn,r.spamScore,r.spamAction,r.tlsVersion,r.sizeBytes,r.detail,r.occurredAt⟩

variable (b : Builtins ν) (t : MailEvents ν) (orgId : Nat)

/-- `DashboardService.recentEvents`, once the role has been found. -/
def recentEvents (limit : Nat) : List (RecentEvent ν) :=
  ((((scan t).filter (·.visible orgId)).insertionSort fun r r' => r'.occurredAt ≤ r.occurredAt).take (min limit 500)).map (·.recentEvent)

/-- `QueueService.trace`, once the role has been found. -/
def trace (queueId : JsString) : List (TraceEvent ν) :=
  ((((scan t).filter fun r => r.queueId == some queueId && r.visible orgId).insertionSort fun r r' => r.occurredAt ≤ r'.occurredAt).take
    200).map (·.traceEvent)

/-- The aggregate `max` over the texts that are there; `normal` is what is compared. -/
def maxText (normal : JsString → JsString) (texts : List (Option JsString)) : Option JsString :=
  texts.reduceOption.foldl (fun best text => some (match best with
    | none => text
    | some best => if b.greater (normal best) (normal text) then best else text)) none

/-- One group of `deferred`. -/
def deferredMessage (queueId : JsString) (rows : List (MailEventRow ν)) : DeferredMessage where
  queueId := queueId
  fromAddr := maxText b b.lower (rows.map (·.fromAddr))
  toAddr := maxText b b.lower (rows.map (·.toAddr))
  dsn := maxText b id (rows.map (·.dsn))
  lastSeen := (rows.map (·.occurredAt)).max?.getD 0
  attempts := rows.length

/-- `QueueService.deferred`, once the role has been found. -/
def deferred (limit : Nat) (now : Int) : List DeferredMessage :=
  let rows := (scan t).filter fun r =>
    r.visible orgId && (search (literal (js ".defer")) r.event).isSome && decide (now - 86400000 < r.occurredAt)
  let groups := (rows.filterMap (·.queueId)).dedup.map fun queueId => deferredMessage b queueId (rows.filter (·.queueId == some queueId))
  (groups.insertionSort fun g g' => g'.lastSeen ≤ g.lastSeen).take (min limit 500)

def domainPart (address : JsString) : JsString := citext (address.rtakeWhile (· ≠ AT))

def Envelope.outside (domains : List JsString) (envelope : Envelope) : Bool :=
  (envelope.sender :: envelope.recipients).all fun address => !domains.contains (domainPart address)

def LogLine.foreign (domains : List JsString) (line : LogLine) : Bool := line.about.any (·.outside domains)

def IngestCall.only (p : LogLine → Bool) (call : IngestCall) : IngestCall := { call with lines := call.lines.filter p }

/-- What is left of a history without the lines of foreign messages. -/
def ownPart (domains : List JsString) (history : List IngestCall) : List IngestCall :=
  (history.map (·.only (!·.foreign domains))).filter (!·.lines.isEmpty)

/-- The lines of foreign messages. -/
def foreignPart (domains : List JsString) (history : List IngestCall) : List IngestCall := history.map (·.only (·.foreign domains))

variable (b : Builtins ν)

/-- The answers to an organisation are the same after both histories. -/
structure SameAnswers (orgId limit : Nat) (h h' : List IngestCall) : Prop where
  deferred : ∀ now, deferred b (stored b h) orgId limit now = deferred b (stored b h') orgId limit now
  trace : ∀ queueId, trace (stored b h) orgId queueId = trace (stored b h') orgId queueId
  recentEvents : recentEvents (stored b h) orgId limit = recentEvents (stored b h') orgId limit

/-- The limit leaves out no event of a history. -/
def Untruncated (limit : Nat) (h : List IngestCall) : Prop := (stored b h).rows.length ≤ min limit 500

instance (limit : Nat) (h : List IngestCall) : Decidable (Untruncated b limit h) :=
  inferInstanceAs (Decidable ((stored b h).rows.length ≤ min limit 500))

/-- The rows of the lines that have a message and no value that the database refuses. -/
def rowsOf (h : List IngestCall) : List (MailEventRow ν) :=
  h.flatMap fun call => (call.lines.filter (!·.text.isEmpty)).filterMap (·.row b call.now)

/-- No row is lost because the database refuses another one of its call. -/
def Lossless (h : List IngestCall) : Prop := (stored b h).rows = rowsOf b h

instance [DecidableEq ν] (h : List IngestCall) : Decidable (Lossless b h) :=
  inferInstanceAs (Decidable ((stored b h).rows = rowsOf b h))

variable {b} {t t' : MailEvents ν} {rows : List (MailEventRow ν)} {row : MailEventRow ν} {line : LogLine} {call : IngestCall}
  {h h' : List IngestCall} {orgId limit : Nat}

/-- What no line fills. -/
structure Unowned (row : MailEventRow ν) : Prop where
  orgId : row.orgId = none
  relay : row.relay = none

theorem unowned_of_row {now : Int} (hrow : line.row b now = some row) : Unowned row := by
  simp only [LogLine.row,Option.bind_eq_bind,Option.bind_eq_some_iff,Option.some.injEq] at hrow
  obtain ⟨_,-,_,-,_,-,_,-,_,-,_,-,_,-,_,-,_,-,rfl⟩ := hrow
  exact ⟨rfl,rfl⟩

theorem unowned_of_rows (hrows : call.rows b = some rows) : ∀ row ∈ rows, Unowned row := by
  intro row hrow
  obtain ⟨line,-,hline⟩ := (mapM_values hrows).2 row hrow
  exact unowned_of_row hline

theorem rows_insertAll (hinsert : insertAll t rows = some t') : t'.rows = t.rows ++ rows := by
  induction rows generalizing t with
  | nil =>
    cases hinsert
    exact (List.append_nil _).symm
  | cons row rows ih =>
    rw [insertAll] at hinsert
    split at hinsert
    · rw [ih hinsert,Table.insert,List.append_assoc,List.singleton_append]
    · simp at hinsert

theorem unowned_ingest (ht : ∀ row ∈ t.rows, Unowned row) (call : IngestCall) : ∀ row ∈ (ingest b t call).rows, Unowned row := by
  intro row hrow
  rw [ingest] at hrow
  cases hinsert : (call.rows b).bind (insertAll t) with
  | none =>
    rw [hinsert] at hrow
    exact ht row hrow
  | some t' =>
    obtain ⟨rows,hrows,ht'⟩ := Option.bind_eq_some_iff.mp hinsert
    rw [hinsert,Option.getD_some,rows_insertAll ht'] at hrow
    rcases List.mem_append.mp hrow with hold | hnew
    · exact ht row hold
    · exact unowned_of_rows hrows row hnew

/-- No row of a history has an organisation. -/
theorem unowned_stored (b : Builtins ν) (h : List IngestCall) : ∀ row ∈ (stored b h).rows, Unowned row := by
  have hfold : ∀ t : MailEvents ν, (∀ row ∈ t.rows, Unowned row) → ∀ row ∈ (h.foldl (ingest b) t).rows, Unowned row := by
    induction h with
    | nil => exact fun t ht => ht
    | cons call h ih => exact fun t ht => ih _ (unowned_ingest ht call)
  exact hfold .empty fun _ hrow => absurd hrow List.not_mem_nil

/-- A query sees the rows of a table, not their order. -/
theorem scan_eq (hperm : t.rows.Perm t'.rows) : scan t = scan t' := by
  refine List.Perm.eq_of_pairwise ?_ (List.pairwise_insertionSort _ _) (List.pairwise_insertionSort _ _) ?_
  · intro row row' hrow hrow' hle hle'
    have hmem : row ∈ t.rows := (List.perm_insertionSort _ _).mem_iff.mp hrow
    have hmem' : row' ∈ t.rows := hperm.mem_iff.mpr ((List.perm_insertionSort _ _).mem_iff.mp hrow')
    exact Table.eq_of_key hmem hmem' (Nat.le_antisymm hle hle')
  · exact (List.perm_insertionSort _ _).trans (hperm.trans (List.perm_insertionSort _ _).symm)

theorem sameAnswers_of_perm (hperm : (stored b h).rows.Perm (stored b h').rows) (orgId limit : Nat) : SameAnswers b orgId limit h h' := by
  have hscan := scan_eq hperm
  refine ⟨fun now => ?_,fun queueId => ?_,?_⟩
  · rw [deferred,hscan,deferred]
  · rw [trace,hscan,trace]
  · rw [recentEvents,hscan,recentEvents]

def RecentEvent.source (e : RecentEvent ν) : MailEventRow ν :=
  ⟨e.id,none,e.queueId,e.direction,e.event,e.fromAddr,e.toAddr,none,e.sizeBytes,e.spamScore,
    e.spamAction,e.tlsVersion,e.dsn,e.detail,e.occurredAt⟩

theorem source_recentEvent (hrow : Unowned row) : row.recentEvent.source = row := by
  obtain ⟨horg,hrelay⟩ := hrow
  rw [RecentEvent.source,← horg,← hrelay]
  rfl

theorem sources_recentEvents (hrows : ∀ row ∈ rows, Unowned row) : (rows.map (·.recentEvent)).map (·.source) = rows := by
  rw [List.map_map]
  exact (List.map_congr_left fun row hrow => source_recentEvent (hrows row hrow)).trans (List.map_id rows)

/-- Every event is shown to every organisation. -/
theorem recentEvents_perm (orgId : Nat) (hroom : Untruncated b limit h) :
    (recentEvents (stored b h) orgId limit).Perm ((stored b h).rows.map (·.recentEvent)) := by
  have hscan : (scan (stored b h)).Perm (stored b h).rows := List.perm_insertionSort _ _
  have hvisible : (scan (stored b h)).filter (·.visible orgId) = scan (stored b h) := by
    refine List.filter_eq_self.mpr fun row hrow => ?_
    rw [MailEventRow.visible,(unowned_stored b h row (hscan.mem_iff.mp hrow)).orgId]
    rfl
  rw [recentEvents,hvisible,List.take_of_length_le]
  · exact ((List.perm_insertionSort _ _).trans hscan).map _
  · rw [List.length_insertionSort,hscan.length_eq]
    exact hroom

theorem sameAnswers_iff (hroom : Untruncated b limit h) (hroom' : Untruncated b limit h') :
    SameAnswers b orgId limit h h' ↔ (stored b h).rows.Perm (stored b h').rows := by
  refine ⟨fun hsame => ?_,fun hperm => sameAnswers_of_perm hperm orgId limit⟩
  have hshown : ((stored b h).rows.map (·.recentEvent)).Perm ((stored b h').rows.map (·.recentEvent)) := by
    have hevents := recentEvents_perm orgId hroom
    rw [hsame.recentEvents] at hevents
    exact hevents.symm.trans (recentEvents_perm orgId hroom')
  have hrows := hshown.map (·.source)
  rwa [sources_recentEvents (unowned_stored b h),sources_recentEvents (unowned_stored b h')] at hrows

theorem rowsOf_ownPart (b : Builtins ν) (domains : List JsString) (h : List IngestCall) :
    rowsOf b (ownPart domains h) = rowsOf b (h.map (·.only (!·.foreign domains))) := by
  rw [ownPart,rowsOf,rowsOf]
  induction h.map (·.only (!·.foreign domains)) with
  | nil => rfl
  | cons call rest ih =>
    rw [List.filter_cons]
    split
    · rw [List.flatMap_cons,List.flatMap_cons,ih]
    · rename_i hempty
      have hlines : call.lines = [] := by simpa using hempty
      rw [List.flatMap_cons,ih,hlines]
      rfl

theorem rowsOf_split (b : Builtins ν) (p : LogLine → Bool) (h : List IngestCall) :
    (rowsOf b h).Perm (rowsOf b (h.map (·.only p)) ++ rowsOf b (h.map (·.only (!p ·)))) := by
  rw [rowsOf,rowsOf,rowsOf,List.flatMap_map,List.flatMap_map]
  refine (List.Perm.flatMap_left _ fun call _ => ?_).trans (List.flatMap_append_perm h _ _).symm
  have honly : ∀ q : LogLine → Bool, (call.only q).lines.filter (!·.text.isEmpty) = (call.lines.filter (!·.text.isEmpty)).filter q :=
    fun q => List.filter_comm _ _ call.lines
  rw [honly,honly]
  have hparts := (List.filter_append_perm p (call.lines.filter (!·.text.isEmpty))).symm.filterMap (·.row b call.now)
  rwa [List.filterMap_append] at hparts

theorem perm_iff_foreign {domains : List JsString} (hdiffer : ownPart domains h = ownPart domains h') (hall : Lossless b h)
    (hall' : Lossless b h') :
    (stored b h).rows.Perm (stored b h').rows ↔ (rowsOf b (foreignPart domains h)).Perm (rowsOf b (foreignPart domains h')) := by
  have hown : rowsOf b (h.map (·.only (!·.foreign domains))) = rowsOf b (h'.map (·.only (!·.foreign domains))) := by
    rw [← rowsOf_ownPart,hdiffer,rowsOf_ownPart]
  have hsplit := rowsOf_split b (·.foreign domains) h
  have hsplit' := rowsOf_split b (·.foreign domains) h'
  rw [hall,hall',foreignPart,foreignPart]
  rw [← hown] at hsplit'
  constructor
  · intro hperm
    exact (List.perm_append_right_iff _).mp (hsplit.symm.trans (hperm.trans hsplit'))
  · intro hperm
    exact hsplit.trans ((hperm.append_right _).trans hsplit'.symm)

/-- What an organisation is answered is the same after two histories if and only if they leave the same rows. Where they differ in
foreign lines alone and no row is lost, that is: if and only if the foreign lines of both have the same rows. -/
theorem traces_isolated_iff (hroom : Untruncated b limit h) (hroom' : Untruncated b limit h') :
    (SameAnswers b orgId limit h h' ↔ (stored b h).rows.Perm (stored b h').rows) ∧
    ∀ domains, ownPart domains h = ownPart domains h' → Lossless b h → Lossless b h' →
      (SameAnswers b orgId limit h h' ↔ (rowsOf b (foreignPart domains h)).Perm (rowsOf b (foreignPart domains h'))) := by
  have hiff : SameAnswers b orgId limit h h' ↔ (stored b h).rows.Perm (stored b h').rows := sameAnswers_iff hroom hroom'
  refine ⟨hiff,fun domains hdiffer hall hall' => ?_⟩
  exact hiff.trans (perm_iff_foreign hdiffer hall hall')

def asciiBuiltins : Builtins Nat where
  number text := text.foldl (fun n c => n * 10 + (c.toNat - 48)) 0
  date _ := none
  int4 n := some (n : Int)
  greater text text' := decide (text' < text)
  lower := citext

/-- Mail between two addresses in a domain of another organisation is deferred. -/
def foreignLine : LogLine :=
  ⟨some (js "postfix"),some (js "postfix/smtp[9]: 4F2A9C31D0: to=<p@other.example>, dsn=4.4.1, status=deferred"),none,1,
    some ⟨js "s@other.example",[js "p@other.example"]⟩⟩

def skippedLine : LogLine := { foreignLine with message := none }

/-- The second history has a foreign line more, but one without a message. -/
theorem skipped_line_hidden : SameAnswers asciiBuiltins 5 100 [⟨0,[foreignLine]⟩] [⟨0,[foreignLine]⟩,⟨1,[skippedLine]⟩] := by
  refine ((traces_isolated_iff ?_ ?_).2 [js "own.example"] ?_ ?_ ?_).mpr ?_
  all_goals decide +kernel

/-- The histories differ in a foreign line alone, and so do the answers. -/
theorem foreign_line_shown : ownPart [js "own.example"] [] = ownPart [js "own.example"] [⟨0,[foreignLine]⟩] ∧
    Untruncated asciiBuiltins 100 [] ∧ Untruncated asciiBuiltins 100 [⟨0,[foreignLine]⟩] ∧
    ¬SameAnswers asciiBuiltins 5 100 [] [⟨0,[foreignLine]⟩] := by
  refine ⟨by decide +kernel,by decide +kernel,by decide +kernel,fun hsame => ?_⟩
  have htrace := hsame.trace (js "4F2A9C31D0")
  have hshown : (trace (stored asciiBuiltins [⟨0,[foreignLine]⟩]) 5 (js "4F2A9C31D0")).map (·.toAddr) = [some (js "p@other.example")] := by
    decide +kernel
  rw [← htrace] at hshown
  exact absurd hshown (by decide +kernel)

end Ingest

end JustMail.Observability
