import JustMail.Foundation.CodeUnits
import JustMail.Foundation.KeyedTable
import JustMail.Foundation.Runs

/-! `migrateStorage`: the objects of one store are copied to another while the first is in
use. A run awaits one call of a store after the other; between them the source can change. -/
namespace JustMail.Storage
open Foundation

abbrev Bytes := List UInt8

structure StorageObject where
  key : JsString
  body : Bytes
  contentType : Option JsString
  metadata : Option (List (JsString × JsString))
  deriving DecidableEq

def StorageObject.size (o : StorageObject) : Nat := o.body.length

abbrev Bucket := Table StorageObject.key

structure ListEntry where
  key : JsString
  size : Nat
  deriving DecidableEq

/-- The options of a run that copies the whole source: `prefix` is left out. -/
structure MigrateOptions where
  force : Bool
  dryRun : Bool
  verify : Bool
  deriving DecidableEq

/-- The options of a call without any. -/
def MigrateOptions.default : MigrateOptions := ⟨false,false,false⟩

/-- `failures` has the keys; the texts of the errors are left out. -/
structure MigrateSummary where
  copied : Nat
  skipped : Nat
  failed : Nat
  bytesCopied : Nat
  failures : List JsString
  deriving DecidableEq

/-- What a run awaits: the next entry, or a call that `copyOne` or the test of the size makes. -/
inductive Phase where
  | nextEntry
  | headTarget (entry : ListEntry)
  | getStream (entry : ListEntry)
  | headSource (entry : ListEntry) (body : Bytes)
  | putTarget (entry : ListEntry) (object : StorageObject)
  | verify (entry : ListEntry)
  deriving DecidableEq

/-- A run, with the keys it was to list when it started and has not listed yet, and the
entries that it has listed and not yet taken up. -/
structure Migration where
  opts : MigrateOptions
  unlisted : List JsString
  queue : List ListEntry
  phase : Phase
  summary : MigrateSummary

namespace Migration
variable (m : Migration) (entry : ListEntry)

def skip : Migration := { m with phase := .nextEntry, summary.skipped := m.summary.skipped + 1 }

def copied : Migration :=
  { m with
    phase := .nextEntry
    summary.copied := m.summary.copied + 1
    summary.bytesCopied := m.summary.bytesCopied + entry.size }

def fail : Migration :=
  { m with
    phase := .nextEntry
    summary.failed := m.summary.failed + 1
    summary.failures := m.summary.failures ++ [entry.key] }

/-- What follows the test of the size. -/
def consider (same : Bool) : Migration :=
  if same then m.skip else if m.opts.dryRun then m.copied entry else { m with phase := .getStream entry }

end Migration

/-- A call of `putObject` that fails has written nothing, or the whole object: the
adapters put the object in place in one step. -/
inductive PutOutcome where
  | written
  | failed
  | failedAfterWrite
  deriving DecidableEq

/-- `finished` is what the last run has returned. `history` has everything that the source
has held, and `touched` tells whether it has been written to since the last run started. -/
structure MigrateState where
  source : Bucket
  target : Bucket
  running : Option Migration
  finished : Option (MigrateOptions × MigrateSummary)
  history : List (JsString × Bytes)
  touched : Bool

def MigrateState.initial (source : Bucket) : MigrateState :=
  ⟨source,.empty,none,none,source.rows.map fun o => (o.key,o.body),false⟩

inductive MigrateAction where
  | put (object : StorageObject)
  | start (opts : MigrateOptions)
  | list (key : JsString)
  | next
  | headTarget (ok : Bool)
  | getStream (ok : Bool)
  | headSource (ok : Bool)
  | putTarget (outcome : PutOutcome)
  | verify (ok : Bool)
  | finish
  | interrupt
  deriving DecidableEq

/-- `targetHasSameSize`. -/
def targetHasSameSize (target : Bucket) (entry : ListEntry) : Bool := (target.lookup entry.key).any (·.size == entry.size)

/-- The step of a run; `none` where it awaits something else. The exception of `headObject`
ends it without a summary. -/
def runStep (s : MigrateState) (m : Migration) : MigrateAction → Option MigrateState
  | .list key => (s.source.lookup key).map fun o =>
    { s with running := some { m with unlisted := m.unlisted.filter (· ≠ key), queue := m.queue ++ [⟨key,o.size⟩] } }
  | .next =>
    match m.phase, m.queue with
    | .nextEntry, entry :: queue =>
      let m := { m with queue := queue }
      some { s with running := some (if m.opts.force then m.consider entry false else { m with phase := .headTarget entry }) }
    | _, _ => none
  | .headTarget ok =>
    match m.phase with
    | .headTarget entry =>
      some { s with running := if ok then some (m.consider entry (targetHasSameSize s.target entry)) else none }
    | _ => none
  | .getStream ok =>
    match m.phase with
    | .getStream entry =>
      match if ok then s.source.lookup entry.key else none with
      | some o => some { s with running := some { m with phase := .headSource entry o.body } }
      | none => some { s with running := some (m.fail entry) }
    | _ => none
  | .headSource ok =>
    match m.phase with
    | .headSource entry body =>
      let head := if ok then s.source.lookup entry.key else none
      let object := ⟨entry.key,body,head.bind (·.contentType),head.bind (·.metadata)⟩
      some { s with running := some { m with phase := .putTarget entry object } }
    | _ => none
  | .putTarget outcome =>
    match m.phase with
    | .putTarget entry object =>
      let written := s.target.upsert object
      match outcome with
      | .written =>
        let m := if m.opts.verify then { m with phase := .verify entry } else m.copied entry
        some { s with target := written, running := some m }
      | .failed => some { s with running := some (m.fail entry) }
      | .failedAfterWrite => some { s with target := written, running := some (m.fail entry) }
    | _ => none
  | .verify ok =>
    match m.phase with
    | .verify entry =>
      some { s with running := some (if ok && targetHasSameSize s.target entry then m.copied entry else m.fail entry) }
    | _ => none
  | .finish =>
    if m.phase = .nextEntry ∧ m.queue = [] ∧ m.unlisted = [] then
      some { s with running := none, finished := some (m.opts,m.summary) }
    else none
  | .interrupt => some { s with running := none }
  | _ => none

/-- Objects are put into the source at any time; runs follow one another. -/
def migrateStep (s : MigrateState) (a : MigrateAction) : Option MigrateState :=
  match a, s.running with
  | .put object, _ =>
    some { s with source := s.source.upsert object, history := s.history ++ [(object.key,object.body)], touched := true }
  | .start opts, none =>
    some { s with
      running := some ⟨opts,s.source.rows.map (·.key),[],.nextEntry,⟨0,0,0,0,[]⟩⟩
      finished := none
      touched := false }
  | a, some m => runStep s m a
  | _, none => none

end JustMail.Storage
