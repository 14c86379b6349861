import JustMail.Foundation.Decimal

/-! Matching expected records against what a DNS provider holds (`dns-reconcile.ts`),
and the loop of `DnsService.syncToProvider` over any provider. -/
namespace JustMail.Dkim
open Foundation

def TXT : JsString := js "TXT"
def MX : JsString := js "MX"
def CAA : JsString := js "CAA"
def CNAME : JsString := js "CNAME"
def QUOTE : CodeUnit := unit '"'
def DOT : CodeUnit := unit '.'

def isAsciiLetter (c : CodeUnit) : Bool := (97 ≤ c && c ≤ 122) || (65 ≤ c && c ≤ 90)

/-- The class `\w`. -/
def isWord (c : CodeUnit) : Bool := isDigit c || isAsciiLetter c || c == unit '_'

def dropHeadUnit (a : CodeUnit) (s : JsString) : JsString := if s.head? = some a then s.tail else s
def dropLastUnit (a : CodeUnit) (s : JsString) : JsString := if s.getLast? = some a then s.dropLast else s

/-- `s.replace(/^"|"$/g, "")`. -/
def unquote (s : JsString) : JsString := dropLastUnit QUOTE (dropHeadUnit QUOTE s)

def strip (s : JsString) : JsString := trim (unquote s)

/-- `s.replace(/\.$/, "")`. -/
def dropDot (s : JsString) : JsString := dropLastUnit DOT s

/-- `s.split(/\s+/)`. A run of white space is one separator, also at either end. -/
def splitSpaces : JsString → List JsString
  | [] => [[]]
  | c :: s =>
    if isSpace c then if s.head?.any isSpace then splitSpaces s else [] :: splitSpaces s
    else match splitSpaces s with
      | [] => [[c]]
      | w :: ws => (c :: w) :: ws

/-- `CaaTuple`. The flags are a byte in DNS; as a JavaScript number they are exact. -/
structure CaaTuple where
  flags : Nat
  tag : JsString
  value : JsString
  deriving DecidableEq

structure ExpectedRecord where
  type : JsString
  name : JsString
  content : JsString
  deriving DecidableEq

/-- The argument of `upsertRecord`. -/
structure Payload extends ExpectedRecord where
  ttl : Nat
  priority : Option Nat
  deriving DecidableEq

inductive Purpose where
  | mx | spf | dkim | dmarc | verification | mtaSts | tlsRpt | autoconfig | autodiscover | bimi | caa | custom
  deriving DecidableEq

/-- A row of `dns_records`, as far as the loop reads it. -/
structure RecordRow extends Payload where
  id : Nat
  purpose : Purpose
  deriving DecidableEq

/-- `ProviderRecord`. Record ids differ from provider to provider. -/
structure ProviderRecord (ι : Type) extends Payload where
  id : ι
  deriving DecidableEq

section Matching
variable (cm : CaseMapping) {ι : Type} [DecidableEq ι]

def txtSchemes : List JsString := ["v=spf1","v=dmarc1","v=stsv1","v=tlsrptv1","v=bimi1","v=dkim1"].map js

/-- `\b` behind a word character. -/
def atBoundary (rest : JsString) : Bool := rest.head?.all fun c => !isWord c

def txtKind (content : JsString) : Option JsString :=
  let c := cm.toLowerCase (strip content)
  match txtSchemes.find? fun k => k.isPrefixOf c && atBoundary (c.drop k.length) with
  | some k => some k
  | none => if (js "justmail-verify=").isPrefixOf c then some (js "justmail-verify") else none

/-- The text form, `/^(\d+)\s+([a-z0-9]+)\s+"?([^"]*)"?\s*$/i` after `trim`. -/
def parseCaa (input : JsString) : Option CaaTuple :=
  let s := trim input
  let flags := s.takeWhile isDigit
  let afterFlags := s.dropWhile isDigit
  let tagStart := afterFlags.dropWhile isSpace
  let tag := tagStart.takeWhile fun c => isDigit c || isAsciiLetter c
  let afterTag := tagStart.dropWhile fun c => isDigit c || isAsciiLetter c
  let valueStart := dropHeadUnit QUOTE (afterTag.dropWhile isSpace)
  let value := valueStart.takeWhile (· ≠ QUOTE)
  let rest := dropHeadUnit QUOTE (valueStart.dropWhile (· ≠ QUOTE))
  if flags ≠ [] ∧ afterFlags.head?.any isSpace ∧ tag ≠ [] ∧ afterTag.head?.any isSpace ∧ rest.all isSpace then
    some ⟨digitsValue flags,cm.toLowerCase tag,cm.toLowerCase (trim value)⟩
  else none

def caaToString (t : CaaTuple) : JsString :=
  decimal t.flags ++ js " " ++ t.tag ++ js " \"" ++ t.value ++ js "\""

/-- "10 mail.example.com." gives "mail.example.com". -/
def mxHost (content : JsString) : JsString :=
  let parts := splitSpaces (trim content)
  let host := if parts.length > 1 then parts.getD 1 [] else parts.getD 0 []
  cm.toLowerCase (dropDot host)

def chooseExisting (expected : ExpectedRecord) (existing : List (ProviderRecord ι)) : Option (ProviderRecord ι) :=
  match existing.find? fun e => strip e.content = strip expected.content with
  | some exact => some exact
  | none =>
    if expected.type = TXT then
      match txtKind cm expected.content with
      | none => none
      | some kind => existing.find? fun e => txtKind cm e.content = some kind
    else if expected.type = MX then
      existing.find? fun e => mxHost cm e.content = mxHost cm expected.content
    else if expected.type = CAA then none
    else existing.head?

def staleDuplicates (expected : ExpectedRecord) (existing : List (ProviderRecord ι))
    (chosen : Option (ProviderRecord ι)) : List (ProviderRecord ι) :=
  if expected.type ≠ TXT then [] else
  match txtKind cm expected.content with
  | none => []
  | some kind => existing.filter fun e => txtKind cm e.content = some kind ∧ some e.id ≠ chosen.map (·.id)

end Matching

section Loop
variable (cm : CaseMapping) {σ ι : Type} [DecidableEq ι]

/-- What the loop uses of a provider. `none` is an exception. -/
structure DnsProvider (σ ι : Type) where
  listRecords : σ → JsString → JsString → List (ProviderRecord ι)
  upsertRecord : σ → Option (ProviderRecord ι) → Payload → Option (ProviderRecord ι × σ)
  deleteRecord : σ → ι → σ

inductive SyncAction where
  | fixed (removed : Nat) | created | kept | updated | error
  deriving DecidableEq

/-- An entry of `applied`, with the id the row's `provider_record_id` is set to. -/
structure Applied (ι : Type) where
  purpose : Purpose
  action : SyncAction
  recordId : Option ι

/-- The body of the `try` block for one row. -/
def syncRow (provider : DnsProvider σ ι) (zone : σ) (r : RecordRow) : Option (Applied ι × σ) :=
  let existing := provider.listRecords zone r.name r.type
  let chosen := chooseExisting cm r.toExpectedRecord existing
  (provider.upsertRecord zone chosen r.toPayload).map fun (cfRec,zone') =>
    let stale := staleDuplicates cm r.toExpectedRecord existing (some cfRec)
    let action := if stale.length > 0 then .fixed stale.length else match chosen with
      | none => .created
      | some e => if strip e.content = strip r.content then .kept else .updated
    (⟨r.purpose,action,some cfRec.id⟩,stale.foldl (fun z dup => provider.deleteRecord z dup.id) zone')

def syncToProvider (provider : DnsProvider σ ι) : List RecordRow → σ → List (Applied ι) × σ
  | [], zone => ([],zone)
  | r :: rows, zone =>
    let (entry,zone') := (syncRow cm provider zone r).getD (⟨r.purpose,.error,none⟩,zone)
    let (applied,final) := syncToProvider provider rows zone'
    (entry :: applied,final)

/-- No row of the run ended in an exception. -/
def ErrorFree (applied : List (Applied ι)) : Prop := ∀ a ∈ applied, a.action ≠ .error

omit [DecidableEq ι] in
private theorem action_ne_error {chosen : Option (ProviderRecord ι)} {content : JsString} (n : Nat) :
    (if n > 0 then SyncAction.fixed n else match chosen with
      | none => .created
      | some e => if strip e.content = strip content then .kept else .updated) ≠ .error := by
  split
  · simp
  · cases chosen with
    | none => simp
    | some e => by_cases heq : strip e.content = strip content <;> simp [heq]

theorem syncRow_of_upsert (provider : DnsProvider σ ι) {zone zone' : σ} {r : RecordRow} {cfRec : ProviderRecord ι}
    (h : provider.upsertRecord zone
      (chooseExisting cm r.toExpectedRecord (provider.listRecords zone r.name r.type)) r.toPayload = some (cfRec,zone')) :
    ∃ entry, entry.action ≠ .error ∧ syncRow cm provider zone r =
      some (entry,(staleDuplicates cm r.toExpectedRecord (provider.listRecords zone r.name r.type) (some cfRec)).foldl
        (fun z dup => provider.deleteRecord z dup.id) zone') := by
  rw [syncRow,h]
  exact ⟨_,action_ne_error _,rfl⟩

theorem syncToProvider_cons {provider : DnsProvider σ ι} {zone zone' : σ} {r : RecordRow} {rows : List RecordRow}
    {entry : Applied ι} (h : syncRow cm provider zone r = some (entry,zone')) :
    syncToProvider cm provider (r :: rows) zone =
      (entry :: (syncToProvider cm provider rows zone').1,(syncToProvider cm provider rows zone').2) := by
  rw [syncToProvider,h]
  rfl

end Loop
end JustMail.Dkim
