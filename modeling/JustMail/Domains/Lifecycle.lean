import JustMail.Foundation.Runs
import JustMail.Accounts.Invites

/-! `DomainsService`: how a domain comes to its status. Calls run at the same time, each statement,
transaction and DNS lookup one step; roles, mailboxes and time change in between. -/
namespace JustMail.Domains
open Foundation Postfix Accounts

section Rows

inductive OutboundMode where
  | inherit | direct | smarthost
  deriving DecidableEq

structure DomainRow where
  id : Nat
  orgId : Nat
  name : JsString
  status : DomainStatus
  verificationToken : JsString
  isPrimary : Bool
  catchAllTarget : Option Email
  maxMailboxes : Option Nat
  maxQuotaMb : Option Nat
  outboundMode : OutboundMode

inductive CheckStatus where
  | unknown | ok | drifted | missing
  deriving DecidableEq

/-- The row of `dns_records` with the purpose `verification`. -/
structure VerificationRecord where
  domainId : Nat
  name : JsString
  content : JsString
  checkStatus : CheckStatus
  observedContent : Option JsString

/-- The rows, and how many ids have been drawn for domains: no id is drawn twice. -/
structure DomainsDb where
  domains : Table DomainRow.id
  records : Table VerificationRecord.domainId
  drawn : Nat
  fresh : ∀ d ∈ domains.rows, d.id < drawn

namespace DomainsDb
variable (db : DomainsDb)

/-- `UPDATE domains SET .. WHERE p`. -/
def updateDomains (p : DomainRow → Bool) (f : DomainRow → DomainRow) (hf : ∀ d, (f d).id = d.id) : DomainsDb :=
  { db with
    domains := db.domains.updateWhere p f hf
    fresh := by
      intro d' hd'
      obtain ⟨d,hd,rfl⟩ := List.mem_map.mp hd'
      split
      · exact (hf d).symm ▸ db.fresh d hd
      · exact db.fresh d hd }

/-- `DELETE FROM domains WHERE id = $1`, with the records of the domain. -/
def deleteDomain (domainId : Nat) : DomainsDb :=
  { db with
    domains := db.domains.deleteWhere (·.id == domainId)
    records := db.records.deleteWhere (·.domainId == domainId)
    fresh := fun d hd => db.fresh d (List.mem_filter.mp hd).1 }

theorem lookup_drawn : db.domains.lookup db.drawn = none :=
  Table.lookup_eq_none.mpr fun d hd => (db.fresh d hd).ne

/-- `INSERT INTO domains`, and the verification record of `seedDnsRecords`. -/
def insertDomain (orgId : Nat) (name token : JsString) (isPrimary : Bool) : DomainsDb where
  domains := db.domains.insert ⟨db.drawn,orgId,name,.pendingVerification,token,isPrimary,none,none,none,.inherit⟩ db.lookup_drawn
  records := db.records.upsert ⟨db.drawn,js "_justmail-verify." ++ name,js "justmail-verify=" ++ token,.unknown,none⟩
  drawn := db.drawn + 1
  fresh := by
    intro d hd
    rcases List.mem_append.mp hd with hd | hd
    · exact Nat.lt_succ_of_lt (db.fresh d hd)
    · rw [List.mem_singleton.mp hd]
      exact Nat.lt_succ_self _

end DomainsDb
end Rows

section Calls

structure CreateDomainRequest where
  name : Hostname
  isPrimary : Option Bool

inductive RequestedStatus where
  | active | suspended
  deriving DecidableEq

def RequestedStatus.toStatus : RequestedStatus → DomainStatus
  | .active => .active
  | .suspended => .suspended

/-- The outer `none` is a field that is left out, the inner one `null`. -/
structure UpdateDomainRequest where
  isPrimary : Option Bool
  catchAllTarget : Option (Option Email)
  maxMailboxes : Option (Option Nat)
  maxQuotaMb : Option (Option Nat)
  outboundMode : Option OutboundMode
  retentionDays : Option (Option Nat)
  status : Option RequestedStatus

/-- What a call does. A domain is created with the token that the database draws; `verify` meets an
answer of the DNS, the strings of each TXT record, or the message of an error. -/
inductive DomainOp where
  | create (req : CreateDomainRequest) (token : JsString)
  | update (domainId : Nat) (req : UpdateDomainRequest)
  | remove (domainId : Nat)
  | verify (domainId : Nat) (answer : Except JsString (List (List JsString)))

structure DomainCall where
  userId : Nat
  orgId : Nat
  op : DomainOp

def DomainOp.minRole : DomainOp → OrgRole
  | .verify _ _ => .member
  | _ => .admin

inductive DomainError where
  | access (e : AccessError)
  | notFound
  | alreadyInUse
  | hasMailboxes
  | database
  deriving DecidableEq

/-- How far a call has come, with what it has read. -/
inductive DomainPhase where
  | started
  | permitted
  | readable
  | selected (domain : DomainRow) (mailboxCount : Nat)
  | resolved (domain : DomainRow) (answer : Except JsString (List JsString))
  | ended (result : Except DomainError Unit)

variable (db : DomainsDb)

/-- `if (req.is_primary)`: the other domains of the organisation are no longer primary. -/
def clearPrimary (orgId : Nat) (isPrimary : Option Bool) (kept : Option Nat) : DomainsDb :=
  if isPrimary = some true then
    db.updateDomains (fun d => d.orgId == orgId && d.isPrimary && kept != some d.id) (fun d => { d with isPrimary := false }) fun _ => rfl
  else db

/-- The transaction of `create`. -/
def createTx (orgId : Nat) (req : CreateDomainRequest) (token : JsString) : Except DomainError DomainsDb :=
  let cleared := clearPrimary db orgId req.isPrimary none
  if cleared.domains.rows.any fun d => citext d.name == citext req.name.text then .error .alreadyInUse
  else .ok (cleared.insertDomain orgId (citext req.name.text) token (req.isPrimary.getD false))

def UpdateDomainRequest.apply (req : UpdateDomainRequest) (d : DomainRow) : DomainRow :=
  { d with
    isPrimary := req.isPrimary.getD d.isPrimary
    catchAllTarget := req.catchAllTarget.getD d.catchAllTarget
    maxMailboxes := req.maxMailboxes.getD d.maxMailboxes
    maxQuotaMb := req.maxQuotaMb.getD d.maxQuotaMb
    outboundMode := req.outboundMode.getD d.outboundMode
    status := (req.status.map (·.toStatus)).getD d.status }

/-- The transaction of `update`. The table has no column `retention_days`, so the statement fails
where the request has one. -/
def updateTx (orgId domainId : Nat) (req : UpdateDomainRequest) : Except DomainError DomainsDb :=
  let cleared := clearPrimary db orgId req.isPrimary (some domainId)
  if req.retentionDays.isSome then .error .database
  else .ok (cleared.updateDomains (·.id == domainId) req.apply fun _ => rfl)

def verificationOf (d : DomainRow) : JsString := js "justmail-verify=" ++ d.verificationToken

/-- `flat.includes(expected)`; `false` after an error. -/
def verifiedBy (d : DomainRow) : Except JsString (List JsString) → Bool
  | .ok flat => flat.contains (verificationOf d)
  | .error _ => false

def nextStatus (d : DomainRow) (ok : Bool) : DomainStatus :=
  if ok then .active else if d.status = .active then .active else .verifying

def observedText : Except JsString (List JsString) → JsString
  | .ok flat => (js "; ").intercalate flat
  | .error message => message

def VerificationRecord.check (r : VerificationRecord) (ok : Bool) (observed : JsString) : VerificationRecord :=
  { r with checkStatus := if ok then .ok else if observed.isEmpty then .missing else .drifted, observedContent := some observed }

/-- `UPDATE dns_records SET .. WHERE domain_id = $1 AND purpose = 'verification'`. -/
def checkRecord (domainId : Nat) (ok : Bool) (observed : JsString) : DomainsDb :=
  { db with records := db.records.updateWhere (·.domainId == domainId) (fun r => r.check ok observed) fun _ => rfl }

/-- The transaction of `verify`. -/
def verifyTx (domainId : Nat) (d : DomainRow) (answer : Except JsString (List JsString)) : DomainsDb :=
  let ok := verifiedBy d answer
  let checked := checkRecord db domainId ok (observedText answer)
  if d.status ≠ nextStatus d ok then
    checked.updateDomains (·.id == domainId) (fun row => { row with status := nextStatus d ok }) fun _ => rfl
  else checked

end Calls

section Steps

/-- Whose transaction has written. -/
inductive Cause where
  | create
  | update (userId orgId : Nat)
  | remove
  | verify
  deriving DecidableEq

def DomainCall.cause (c : DomainCall) : Cause :=
  match c.op with
  | .create _ _ => .create
  | .update _ _ => .update c.userId c.orgId
  | .remove _ => .remove
  | .verify _ _ => .verify

/-- What is remembered of a run: that a user was found to be an admin of an organisation, the TXT
values that a call of `verify` for a domain has seen, and each change of a status, with the
organisation of the domain. -/
inductive DomainEvent where
  | admitted (userId orgId : Nat)
  | observed (domainId : Nat) (values : List JsString)
  | changed (domainId orgId : Nat) (before after : DomainStatus) (cause : Cause)
  deriving DecidableEq

structure DomainState where
  accounts : AccountDb
  now : Nat
  mailboxCount : Nat → Nat
  db : DomainsDb
  calls : List (DomainCall × DomainPhase)
  log : List DomainEvent

variable (s : DomainState)

def settle (result : Except DomainError DomainsDb) : DomainsDb × DomainPhase × List DomainEvent :=
  match result with
  | .ok db => (db,.ended (.ok ()),[])
  | .error e => (s.db,.ended (.error e),[])

/-- The next step of a call. `get`, which the last three operations begin with, checks the role again. -/
def DomainCall.advance (c : DomainCall) : DomainPhase → DomainsDb × DomainPhase × List DomainEvent
  | .started => match requireRole s.accounts s.now c.orgId c.userId c.op.minRole with
    | .error e => (s.db,.ended (.error (.access e)),[])
    | .ok _ => (s.db,.permitted,if c.op.minRole = .admin then [.admitted c.userId c.orgId] else [])
  | .permitted => match c.op with
    | .create req token => settle s (createTx s.db c.orgId req token)
    | _ => match requireRole s.accounts s.now c.orgId c.userId .viewer with
      | .error e => (s.db,.ended (.error (.access e)),[])
      | .ok _ => (s.db,.readable,[])
  | .readable => match c.op with
    | .create _ _ => (s.db,.ended (.ok ()),[])
    | .update domainId _ | .remove domainId | .verify domainId _ =>
      match (s.db.domains.lookup domainId).filter (·.orgId == c.orgId) with
      | none => (s.db,.ended (.error .notFound),[])
      | some d => (s.db,.selected d (s.mailboxCount domainId),[])
  | .selected d mailboxCount => match c.op with
    | .create _ _ => (s.db,.ended (.ok ()),[])
    | .update domainId req => settle s (updateTx s.db c.orgId domainId req)
    | .remove domainId => settle s (if mailboxCount > 0 then .error .hasMailboxes else .ok (s.db.deleteDomain domainId))
    | .verify domainId answer => match answer with
      | .error message => (s.db,.resolved d (.error message),[])
      | .ok records => (s.db,.resolved d (.ok (records.map List.flatten)),[.observed domainId (records.map List.flatten)])
  | .resolved d answer => match c.op with
    | .verify domainId _ => settle s (.ok (verifyTx s.db domainId d answer))
    | _ => (s.db,.ended (.ok ()),[])
  | .ended result => (s.db,.ended result,[])

/-- The domains that are there before and after, with another status. -/
def statusChanges (db db' : DomainsDb) (cause : Cause) : List DomainEvent :=
  db.domains.rows.filterMap fun d => (db'.domains.lookup d.id).bind fun d' =>
    if d'.status = d.status then none else some (.changed d.id d.orgId d.status d'.status cause)

inductive DomainAction where
  | call (c : DomainCall)
  | advance (i : Nat)
  | accounts (db : AccountDb)
  | mailboxes (count : Nat → Nat)
  | wait (millis : Nat)

def domainStep : DomainAction → Option DomainState
  | .call c => some { s with calls := s.calls ++ [(c,.started)] }
  | .advance i => s.calls[i]?.map fun (c,phase) =>
    let (db,phase',events) := c.advance s phase
    { s with db := db, calls := s.calls.set i (c,phase'), log := s.log ++ events ++ statusChanges s.db db c.cause }
  | .accounts db => some { s with accounts := db }
  | .mailboxes count => some { s with mailboxCount := count }
  | .wait millis => some { s with now := s.now + millis }

/-- A call of `verify` has seen the token of the domain. -/
def Proven (log : List DomainEvent) (d : DomainRow) : Prop := ∃ values, .observed d.id values ∈ log ∧ verificationOf d ∈ values

def ByAdmin (log : List DomainEvent) (orgId : Nat) (cause : Cause) : Prop :=
  ∃ userId, cause = .update userId orgId ∧ .admitted userId orgId ∈ log

/-- An admin has set the domain to `active`. -/
def Activated (log : List DomainEvent) (d : DomainRow) : Prop :=
  ∃ before cause, .changed d.id d.orgId before .active cause ∈ log ∧ ByAdmin log d.orgId cause

/-- Domains are active by proof alone, and leave `suspended` by an update of an admin alone. -/
def LiveByProof : Prop :=
  (∀ d ∈ s.db.domains.rows, d.status = .active → Proven s.log d) ∧
  ∀ domainId orgId after cause, .changed domainId orgId .suspended after cause ∈ s.log → ByAdmin s.log orgId cause

/-- Domains are active by proof or by an admin, and leave `suspended` by an update of an admin or a
call of `verify`. -/
def LiveByDesign : Prop :=
  (∀ d ∈ s.db.domains.rows, d.status = .active → Proven s.log d ∨ Activated s.log d) ∧
  ∀ domainId orgId after cause, .changed domainId orgId .suspended after cause ∈ s.log → ByAdmin s.log orgId cause ∨ cause = .verify

end Steps

section Rewriting
variable {db db' db'' : DomainsDb} {may : Nat → DomainStatus → Prop}

/-- What a transaction does to domains: new ones wait for verification, the others keep their
organisation and token, and their status where `may` does not say otherwise. -/
def Rewritten (db db' : DomainsDb) (may : Nat → DomainStatus → Prop) : Prop :=
  db.drawn ≤ db'.drawn ∧ ∀ id d', db'.domains.lookup id = some d' →
    (db.drawn ≤ id ∧ d'.status = .pendingVerification) ∨
    ∃ d, db.domains.lookup id = some d ∧ d'.orgId = d.orgId ∧ d'.verificationToken = d.verificationToken ∧
      (d'.status = d.status ∨ may id d'.status)

theorem rewritten_same : Rewritten db db may := ⟨le_rfl,fun _ d' h => .inr ⟨d',h,rfl,rfl,.inl rfl⟩⟩

theorem rewritten_updateDomains {p : DomainRow → Bool} {f : DomainRow → DomainRow} {hf : ∀ d, (f d).id = d.id}
    (hkept : ∀ d, (f d).orgId = d.orgId ∧ (f d).verificationToken = d.verificationToken)
    (hstatus : ∀ d, p d = true → (f d).status = d.status ∨ may d.id (f d).status) :
    Rewritten db (db.updateDomains p f hf) may := by
  refine ⟨le_rfl,fun id d' hd' => .inr ?_⟩
  rw [DomainsDb.updateDomains,Table.lookup_updateWhere] at hd'
  obtain ⟨d,hd,rfl⟩ := Option.map_eq_some_iff.mp hd'
  refine ⟨d,hd,?_⟩
  rw [← show d.id = id from Table.key_of_lookup hd]
  split
  · rename_i hp
    exact ⟨(hkept d).1,(hkept d).2,hstatus d hp⟩
  · exact ⟨rfl,rfl,.inl rfl⟩

theorem rewritten_deleteDomain (domainId : Nat) : Rewritten db (db.deleteDomain domainId) may := by
  refine ⟨le_rfl,fun id d' hd' => .inr ?_⟩
  rw [DomainsDb.deleteDomain,Table.lookup_deleteWhere] at hd'
  exact ⟨d',(Option.filter_eq_some_iff.mp hd').1,rfl,rfl,.inl rfl⟩

theorem rewritten_insertDomain (orgId : Nat) (name token : JsString) (isPrimary : Bool) :
    Rewritten db (db.insertDomain orgId name token isPrimary) may := by
  refine ⟨Nat.le_succ _,fun id d' hd' => ?_⟩
  rw [DomainsDb.insertDomain,Table.lookup_insert] at hd'
  split at hd'
  · rename_i hid
    cases hd'
    exact .inl ⟨hid.ge,rfl⟩
  · exact .inr ⟨d',hd',rfl,rfl,.inl rfl⟩

/-- Statements that come before, draw no id and leave every status alone. -/
theorem Rewritten.after (h : Rewritten db db' fun _ _ => False) (hdrawn : db'.drawn = db.drawn) (hs : Rewritten db' db'' may) :
    Rewritten db db'' may := by
  refine ⟨h.1.trans hs.1,fun id d'' hd'' => ?_⟩
  rcases hs.2 id d'' hd'' with ⟨hnew,hpending⟩ | ⟨d',hd',horg',htoken',hstatus'⟩
  · exact .inl ⟨h.1.trans hnew,hpending⟩
  · rcases h.2 id d' hd' with ⟨hnew,-⟩ | ⟨d,hd,horg,htoken,hstatus | hfalse⟩
    · have hold := db'.fresh d' (Table.lookup_eq_some.mp hd').1
      rw [show d'.id = id from Table.key_of_lookup hd',hdrawn] at hold
      exact absurd hnew hold.not_ge
    · exact .inr ⟨d,hd,horg'.trans horg,htoken'.trans htoken,hstatus ▸ hstatus'⟩
    · exact hfalse.elim

theorem rewritten_clearPrimary (orgId : Nat) (isPrimary : Option Bool) (kept : Option Nat) :
    Rewritten db (clearPrimary db orgId isPrimary kept) may ∧ (clearPrimary db orgId isPrimary kept).drawn = db.drawn := by
  rw [clearPrimary]
  split
  · exact ⟨rewritten_updateDomains (fun _ => ⟨rfl,rfl⟩) fun _ _ => .inl rfl,rfl⟩
  · exact ⟨rewritten_same,rfl⟩

theorem rewritten_checkRecord (domainId : Nat) (ok : Bool) (observed : JsString) :
    Rewritten db (checkRecord db domainId ok observed) may :=
  ⟨le_rfl,fun _ d' h => .inr ⟨d',h,rfl,rfl,.inl rfl⟩⟩

/-- `create` leaves every status alone. -/
theorem rewritten_createTx {orgId : Nat} {req : CreateDomainRequest} {token : JsString} (h : createTx db orgId req token = .ok db') :
    Rewritten db db' may := by
  rw [createTx] at h
  split at h
  · simp at h
  · cases h
    obtain ⟨hcleared,hdrawn⟩ := rewritten_clearPrimary orgId req.isPrimary none
    exact hcleared.after hdrawn (rewritten_insertDomain _ _ _ _)

/-- `update` changes the status of its domain alone. -/
theorem rewritten_updateTx {orgId domainId : Nat} {req : UpdateDomainRequest} (h : updateTx db orgId domainId req = .ok db') :
    Rewritten db db' fun id _ => id = domainId := by
  rw [updateTx] at h
  split at h
  · simp at h
  · cases h
    obtain ⟨hcleared,hdrawn⟩ := rewritten_clearPrimary orgId req.isPrimary (some domainId)
    exact hcleared.after hdrawn (rewritten_updateDomains (fun _ => ⟨rfl,rfl⟩) fun d hd => .inr (beq_iff_eq.mp hd))

/-- `verify` makes a domain `active` only where it has seen the token. -/
theorem rewritten_verifyTx (domainId : Nat) (d : DomainRow) (answer : Except JsString (List JsString)) :
    Rewritten db (verifyTx db domainId d answer) fun id status => id = domainId ∧ (status = .active → verifiedBy d answer = true) := by
  rw [verifyTx]
  split
  · rename_i hchanged
    refine (rewritten_checkRecord domainId (verifiedBy d answer) (observedText answer)).after rfl ?_
    refine rewritten_updateDomains (fun _ => ⟨rfl,rfl⟩) fun row hrow => .inr ⟨beq_iff_eq.mp hrow,fun hactive => ?_⟩
    by_contra hno
    rw [nextStatus,if_neg hno] at hchanged
    dsimp only at hactive
    rw [nextStatus,if_neg hno] at hactive
    split at hactive
    · rename_i hwas
      exact hchanged (by rw [if_pos hwas,hwas])
    · simp at hactive
  · exact rewritten_checkRecord domainId _ _

end Rewriting

section Phases
variable {s : DomainState} {c : DomainCall} {db db' : DomainsDb} {log log' : List DomainEvent}
  {may : Nat → DomainStatus → Prop} {d d' : DomainRow}
variable {phase : DomainPhase}

theorem Proven.mono (h : Proven log d) (hlog : log ⊆ log') (hid : d'.id = d.id) (htoken : d'.verificationToken = d.verificationToken) :
    Proven log' d' := by
  obtain ⟨values,hobserved,hvalue⟩ := h
  rw [verificationOf,← htoken] at hvalue
  exact ⟨values,hid ▸ hlog hobserved,hvalue⟩

theorem ByAdmin.mono {orgId : Nat} {cause : Cause} (h : ByAdmin log orgId cause) (hlog : log ⊆ log') : ByAdmin log' orgId cause := by
  obtain ⟨userId,hcause,hadmitted⟩ := h
  exact ⟨userId,hcause,hlog hadmitted⟩

theorem Activated.mono (h : Activated log d) (hlog : log ⊆ log') (hid : d'.id = d.id) (horg : d'.orgId = d.orgId) : Activated log' d' := by
  obtain ⟨before,cause,hchanged,hadmin⟩ := h
  exact ⟨before,cause,hid ▸ horg ▸ hlog hchanged,horg ▸ hadmin.mono hlog⟩

/-- The row that a call has read is still the one of its domain, but for its settings. -/
def Current (db : DomainsDb) (d : DomainRow) : Prop :=
  d.id < db.drawn ∧ ∀ row, db.domains.lookup d.id = some row → row.orgId = d.orgId ∧ row.verificationToken = d.verificationToken

theorem Current.mono (h : Current db d) (hrewritten : Rewritten db db' may) : Current db' d := by
  refine ⟨h.1.trans_le hrewritten.1,fun row' hrow' => ?_⟩
  rcases hrewritten.2 d.id row' hrow' with ⟨hnew,-⟩ | ⟨row,hrow,horg,htoken,-⟩
  · exact absurd h.1 hnew.not_gt
  · exact ⟨horg.trans (h.2 row hrow).1,htoken.trans (h.2 row hrow).2⟩

def DomainOp.domainId : DomainOp → Option Nat
  | .create _ _ => none
  | .update domainId _ | .remove domainId | .verify domainId _ => some domainId

def DomainCall.Admitted (log : List DomainEvent) (c : DomainCall) : Prop := c.op.minRole = .admin → .admitted c.userId c.orgId ∈ log

/-- What a call knows when it has come so far. -/
def DomainPhase.Sound (db : DomainsDb) (log : List DomainEvent) (c : DomainCall) : DomainPhase → Prop
  | .permitted | .readable => c.Admitted log
  | .selected d _ => c.Admitted log ∧ Current db d ∧ d.orgId = c.orgId ∧ c.op.domainId = some d.id
  | .resolved d answer => Current db d ∧ c.op.domainId = some d.id ∧ ∀ values, answer = .ok values → .observed d.id values ∈ log
  | _ => True

theorem DomainPhase.Sound.mono (h : phase.Sound db log c) (hrewritten : Rewritten db db' may) (hlog : log ⊆ log') :
    phase.Sound db' log' c := by
  cases phase with
  | started => trivial
  | permitted => exact fun hrole => hlog (h hrole)
  | readable => exact fun hrole => hlog (h hrole)
  | selected d mailboxCount => exact ⟨fun hrole => hlog (h.1 hrole),h.2.1.mono hrewritten,h.2.2⟩
  | resolved d answer => exact ⟨h.1.mono hrewritten,h.2.1,fun values hanswer => hlog (h.2.2 values hanswer)⟩
  | ended result => trivial

/-- Why a step of the call may give a status to a domain. -/
def Justified (s : DomainState) (c : DomainCall) (id : Nat) (status : DomainStatus) : Prop :=
  ∀ row, s.db.domains.lookup id = some row →
    ByAdmin s.log row.orgId c.cause ∨ (c.cause = .verify ∧ (status = .active → Proven s.log row))

structure DomainMoved (s : DomainState) (c : DomainCall) (next : DomainsDb × DomainPhase × List DomainEvent) : Prop where
  rewritten : Rewritten s.db next.1 (Justified s c)
  sound : next.2.1.Sound next.1 (s.log ++ next.2.2) c
  quiet : ∀ domainId orgId before after cause, .changed domainId orgId before after cause ∉ next.2.2

/-- A step that writes nothing. -/
theorem moved_read (hsound : phase.Sound s.db s.log c) : DomainMoved s c (s.db,phase,[]) :=
  ⟨rewritten_same,by rw [List.append_nil]; exact hsound,by simp⟩

theorem moved_settle {result : Except DomainError DomainsDb} (h : ∀ db, result = .ok db → Rewritten s.db db (Justified s c)) :
    DomainMoved s c (settle s result) := by
  cases result with
  | ok db => exact ⟨h db rfl,trivial,by simp [settle]⟩
  | error e => exact moved_read trivial

theorem Rewritten.imp {may' : Nat → DomainStatus → Prop} (h : Rewritten db db' may) (himp : ∀ id status, may id status → may' id status) :
    Rewritten db db' may' := by
  refine ⟨h.1,fun id d' hd' => ?_⟩
  rcases h.2 id d' hd' with hnew | ⟨d,hd,horg,htoken,hstatus⟩
  · exact .inl hnew
  · exact .inr ⟨d,hd,horg,htoken,hstatus.imp_right (himp id d'.status)⟩

theorem moved_started : DomainMoved s c (c.advance s .started) := by
  rw [DomainCall.advance]
  split
  · exact moved_read trivial
  · refine ⟨rewritten_same,fun hrole => ?_,?_⟩
    · rw [if_pos hrole]
      simp
    · split
      · simp
      · simp

theorem moved_permitted (hsound : DomainPhase.permitted.Sound s.db s.log c) : DomainMoved s c (c.advance s .permitted) := by
  rw [DomainCall.advance]
  split
  · exact moved_settle fun db hdb => rewritten_createTx hdb
  · split
    · exact moved_read trivial
    · exact moved_read hsound

theorem moved_readable (hsound : DomainPhase.readable.Sound s.db s.log c) : DomainMoved s c (c.advance s .readable) := by
  have hselect : ∀ domainId, c.op.domainId = some domainId → ∀ d mailboxCount,
      (s.db.domains.lookup domainId).filter (·.orgId == c.orgId) = some d → DomainMoved s c (s.db,.selected d mailboxCount,[]) := by
    intro domainId hop d mailboxCount hd
    obtain ⟨hlookup,horg⟩ := Option.filter_eq_some_iff.mp hd
    have hid : d.id = domainId := Table.key_of_lookup hlookup
    refine moved_read ⟨hsound,⟨s.db.fresh d (Table.lookup_eq_some.mp hlookup).1,fun row hrow => ?_⟩,beq_iff_eq.mp horg,hid ▸ hop⟩
    rw [hid,hlookup] at hrow
    cases hrow
    exact ⟨rfl,rfl⟩
  rw [DomainCall.advance]
  split
  · exact moved_read trivial
  all_goals
    rename_i hop
    split
    · exact moved_read trivial
    · rename_i hd
      exact hselect _ (by rw [hop]; rfl) _ _ hd

theorem moved_selected {mailboxCount : Nat} (hsound : (DomainPhase.selected d mailboxCount).Sound s.db s.log c) :
    DomainMoved s c (c.advance s (.selected d mailboxCount)) := by
  obtain ⟨hadmitted,hcurrent,horg,hid⟩ := hsound
  rw [DomainCall.advance]
  split
  · exact moved_read trivial
  · -- `update`
    rename_i domainId req hop
    obtain rfl : domainId = d.id := by simpa [hop,DomainOp.domainId] using hid
    refine moved_settle fun db hdb => (rewritten_updateTx hdb).imp fun id _ hup row hrow => .inl ⟨c.userId,?_,?_⟩
    · rw [hup] at hrow
      rw [DomainCall.cause,hop,(hcurrent.2 row hrow).1,horg]
    · rw [hup] at hrow
      rw [(hcurrent.2 row hrow).1,horg]
      exact hadmitted (by rw [hop]; rfl)
  · -- `remove`
    refine moved_settle fun db hdb => ?_
    split at hdb
    · simp at hdb
    · cases hdb
      exact rewritten_deleteDomain _
  · -- `verify`
    rename_i domainId answer hop
    obtain rfl : domainId = d.id := by simpa [hop,DomainOp.domainId] using hid
    split
    · exact moved_read ⟨hcurrent,hid,by simp⟩
    · refine ⟨rewritten_same,⟨hcurrent,hid,fun values hvalues => ?_⟩,by simp⟩
      cases hvalues
      simp

theorem moved_resolved {answer : Except JsString (List JsString)} (hsound : (DomainPhase.resolved d answer).Sound s.db s.log c) :
    DomainMoved s c (c.advance s (.resolved d answer)) := by
  obtain ⟨hcurrent,hid,hobserved⟩ := hsound
  rw [DomainCall.advance]
  split
  · rename_i domainId _ hop
    obtain rfl : domainId = d.id := by simpa [hop,DomainOp.domainId] using hid
    refine moved_settle fun db hdb => ?_
    cases hdb
    refine (rewritten_verifyTx d.id d answer).imp fun id status hmay row hrow => .inr ⟨by rw [DomainCall.cause,hop],fun hactive => ?_⟩
    obtain ⟨rfl,hverified⟩ := hmay
    cases answer with
    | error message => exact absurd (hverified hactive) (by simp [verifiedBy])
    | ok values =>
      have hproven : Proven s.log d := ⟨values,hobserved values rfl,List.contains_iff_mem.mp (hverified hactive)⟩
      exact hproven.mono (List.Subset.refl _) (Table.key_of_lookup hrow) (hcurrent.2 row hrow).2
  · exact moved_read trivial

theorem moved_call (hsound : phase.Sound s.db s.log c) : DomainMoved s c (c.advance s phase) := by
  cases phase with
  | started => exact moved_started
  | permitted => exact moved_permitted hsound
  | readable => exact moved_readable hsound
  | selected d mailboxCount => exact moved_selected hsound
  | resolved d answer => exact moved_resolved hsound
  | ended result => exact moved_read trivial

end Phases

section Runs
variable {s t : DomainState} {c : DomainCall} {db : DomainsDb} {phase : DomainPhase} {events : List DomainEvent}

/-- A status that changed was changed by the step, and the step had a reason. -/
theorem justified_of_changed {domainId orgId : Nat} {before after : DomainStatus} {cause : Cause}
    (hrewritten : Rewritten s.db db (Justified s c)) (h : .changed domainId orgId before after cause ∈ statusChanges s.db db c.cause) :
    cause = c.cause ∧ (ByAdmin s.log orgId c.cause ∨ c.cause = .verify) := by
  obtain ⟨d,hd,hchange⟩ := List.mem_filterMap.mp h
  obtain ⟨d',hd',hchange⟩ := Option.bind_eq_some_iff.mp hchange
  split at hchange
  · simp at hchange
  · rename_i hstatus
    cases hchange
    have hlookup := Table.lookup_of_mem hd
    refine ⟨rfl,?_⟩
    rcases hrewritten.2 d.id d' hd' with ⟨hnew,-⟩ | ⟨row,hrow,-,-,hsame | hjustified⟩
    · exact absurd (s.db.fresh d hd) hnew.not_gt
    · obtain rfl := Option.some.inj (hlookup.symm.trans hrow)
      exact absurd hsame hstatus
    · exact (hjustified d hlookup).imp_right And.left

/-- A domain that is active after a step was so before, or the step had a reason. -/
theorem live_moved {log : List DomainEvent} {d' : DomainRow} (hlog : s.log ⊆ log) (hchanges : statusChanges s.db db c.cause ⊆ log)
    (hlive : ∀ d ∈ s.db.domains.rows, d.status = .active → Proven s.log d ∨ Activated s.log d)
    (hrewritten : Rewritten s.db db (Justified s c)) (hd' : d' ∈ db.domains.rows) (hactive : d'.status = .active) :
    Proven log d' ∨ Activated log d' := by
  have hlookup' := Table.lookup_of_mem hd'
  rcases hrewritten.2 d'.id d' hlookup' with ⟨-,hpending⟩ | ⟨d,hlookup,horg,htoken,hstatus⟩
  · simp [hactive] at hpending
  · have hid : d'.id = d.id := (Table.key_of_lookup hlookup).symm
    have hd := (Table.lookup_eq_some.mp hlookup).1
    by_cases hwas : d.status = .active
    · exact (hlive d hd hwas).imp (·.mono hlog hid htoken) (·.mono hlog hid horg)
    · rcases hstatus with hsame | hjustified
      · exact absurd (hsame ▸ hactive) hwas
      · rcases hjustified d hlookup with hadmin | ⟨-,hproven⟩
        · -- the change is in the log
          refine .inr ⟨d.status,c.cause,hchanges (List.mem_filterMap.mpr ⟨d,hd,?_⟩),horg ▸ hadmin.mono hlog⟩
          rw [← hid,hlookup',Option.bind_some,if_neg (by rw [hactive]; exact Ne.symm hwas),hactive,horg]
        · exact .inl ((hproven hactive).mono hlog hid htoken)

structure DomainsOrdered (s : DomainState) : Prop where
  sound : ∀ call ∈ s.calls, call.2.Sound s.db s.log call.1
  live : LiveByDesign s

theorem domainsOrdered_moved {i : Nat} (h : DomainsOrdered s) (hmoved : DomainMoved s c (db,phase,events)) :
    DomainsOrdered { s with db := db, calls := s.calls.set i (c,phase), log := s.log ++ events ++ statusChanges s.db db c.cause } := by
  have hlog : s.log ⊆ s.log ++ events ++ statusChanges s.db db c.cause := by
    rw [List.append_assoc]
    exact List.subset_append_left _ _
  refine ⟨fun call hmem => ?_,fun d hd hactive => ?_,fun domainId orgId after cause hchanged => ?_⟩
  · rcases List.mem_or_eq_of_mem_set hmem with hmem | rfl
    · exact (h.sound call hmem).mono hmoved.rewritten hlog
    · exact hmoved.sound.mono (rewritten_same : Rewritten db db (Justified s c)) (List.subset_append_left _ _)
  · exact live_moved hlog (List.subset_append_right _ _) h.live.1 hmoved.rewritten hd hactive
  · rcases List.mem_append.mp hchanged with hchanged | hchanged
    · rcases List.mem_append.mp hchanged with hchanged | hchanged
      · exact (h.live.2 domainId orgId after cause hchanged).imp_left (·.mono hlog)
      · exact absurd hchanged (hmoved.quiet _ _ _ _ _)
    · obtain ⟨rfl,hreason⟩ := justified_of_changed hmoved.rewritten hchanged
      exact hreason.imp_left (·.mono hlog)

theorem domainsOrdered_step {a : DomainAction} (h : DomainsOrdered s) (hstep : domainStep s a = some t) : DomainsOrdered t := by
  cases a with
  | call c =>
    cases hstep
    refine ⟨fun call hcall => ?_,h.live⟩
    rcases List.mem_append.mp hcall with hcall | hcall
    · exact h.sound call hcall
    · rw [List.mem_singleton.mp hcall]
      trivial
  | advance i =>
    obtain ⟨⟨c,phase⟩,hcall,rfl⟩ := Option.map_eq_some_iff.mp hstep
    exact domainsOrdered_moved h (moved_call (h.sound _ (List.mem_of_getElem? hcall)))
  | accounts db =>
    cases hstep
    exact ⟨h.sound,h.live⟩
  | mailboxes count =>
    cases hstep
    exact ⟨h.sound,h.live⟩
  | wait millis =>
    cases hstep
    exact ⟨h.sound,h.live⟩

/-- No domains yet, and nothing under way. -/
def domainStart (accounts : AccountDb) (now : Nat) (mailboxCount : Nat → Nat) : DomainState :=
  ⟨accounts,now,mailboxCount,⟨.empty,.empty,0,by simp [Table.empty]⟩,[],[]⟩

/-- In every run, domains are active by proof or by an admin, and only an update of an admin or a
call of `verify` takes one out of `suspended`. -/
theorem domains_live_by_design {accounts : AccountDb} {now : Nat} {mailboxCount : Nat → Nat}
    (hrun : Run domainStep (fun _ _ => True) (domainStart accounts now mailboxCount) s) : LiveByDesign s := by
  have hstart : DomainsOrdered (domainStart accounts now mailboxCount) :=
    ⟨by simp [domainStart],by simp [domainStart,Table.empty],by simp [domainStart]⟩
  exact (hrun.invariant (fun _ _ _ h _ hstep => domainsOrdered_step h hstep) hstart).live

def adminCall (op : DomainOp) : DomainCall := ⟨1,1,op⟩

def exampleDomain : Hostname := ⟨js "first.org",by decide,by decide⟩

def setStatus (status : RequestedStatus) : UpdateDomainRequest := ⟨none,none,none,none,none,none,some status⟩

/-- The admin of organisation 1 creates a domain; it is domain 0 with the token `k`. -/
def createFirst : List DomainAction := [.call (adminCall (.create ⟨exampleDomain,none⟩ (js "k"))),.advance 0,.advance 0]

def verifyFirst (i : Nat) (values : List (List JsString)) : List DomainAction :=
  [.call (adminCall (.verify 0 (.ok values))),.advance i,.advance i,.advance i,.advance i,.advance i]

def updateFirst (i : Nat) (status : RequestedStatus) : List DomainAction :=
  [.call (adminCall (.update 0 (setStatus status))),.advance i,.advance i,.advance i,.advance i]

def outcome (actions : List DomainAction) : Option (List DomainStatus × List DomainEvent) :=
  (runActions domainStep (fun _ _ => True) (domainStart twoOrgsDb 0 fun _ => 0) actions).map fun s =>
    (s.db.domains.rows.map (·.status),s.log)

theorem run_of_outcome {actions : List DomainAction} {statuses : List DomainStatus} {log : List DomainEvent}
    (h : outcome actions = some (statuses,log)) : ∃ s, Run domainStep (fun _ _ => True) (domainStart twoOrgsDb 0 fun _ => 0) s ∧
      s.db.domains.rows.map (·.status) = statuses ∧ s.log = log := by
  obtain ⟨s,hs,hpair⟩ := Option.map_eq_some_iff.mp h
  obtain ⟨hstatuses,hlog⟩ := Prod.mk.inj hpair
  exact ⟨s,.of_actions hs,hstatuses,hlog⟩

/-- A call of `verify` that sees the token makes the domain active. -/
theorem domain_goes_live : ∃ s, Run domainStep (fun _ _ => True) (domainStart twoOrgsDb 0 fun _ => 0) s ∧
    s.db.domains.rows.map (·.status) = [.active] ∧
    s.log = [.admitted 1 1,.observed 0 [js "justmail-verify=k"],.changed 0 1 .pendingVerification .active .verify] ∧ LiveByDesign s := by
  have hactions : outcome (createFirst ++ verifyFirst 1 [[js "justmail-",js "verify=k"]]) =
      some ([.active],[.admitted 1 1,.observed 0 [js "justmail-verify=k"],.changed 0 1 .pendingVerification .active .verify]) := by
    decide +kernel
  obtain ⟨s,hrun,hstatuses,hlog⟩ := run_of_outcome hactions
  exact ⟨s,hrun,hstatuses,hlog,domains_live_by_design hrun⟩

/-- An admin activates a domain that nobody has verified; a call of `verify` takes a domain out of `suspended`. -/
theorem domain_live_unproven :
    (∃ s, Run domainStep (fun _ _ => True) (domainStart twoOrgsDb 0 fun _ => 0) s ∧ s.db.domains.rows.map (·.status) = [.active] ∧
      s.log = [.admitted 1 1,.admitted 1 1,.changed 0 1 .pendingVerification .active (.update 1 1)] ∧ ¬LiveByProof s) ∧
    ∃ s, Run domainStep (fun _ _ => True) (domainStart twoOrgsDb 0 fun _ => 0) s ∧ s.db.domains.rows.map (·.status) = [.verifying] ∧
      .changed 0 1 .suspended .verifying .verify ∈ s.log ∧ ¬LiveByProof s := by
  constructor
  · have hactions : outcome (createFirst ++ updateFirst 1 .active) =
        some ([.active],[.admitted 1 1,.admitted 1 1,.changed 0 1 .pendingVerification .active (.update 1 1)]) := by decide +kernel
    obtain ⟨s,hrun,hstatuses,hlog⟩ := run_of_outcome hactions
    refine ⟨s,hrun,hstatuses,hlog,fun hproof => ?_⟩
    have hactive : DomainStatus.active ∈ s.db.domains.rows.map (·.status) := by rw [hstatuses]; exact List.mem_singleton_self _
    obtain ⟨d,hd,hstatus⟩ := List.mem_map.mp hactive
    obtain ⟨values,hobserved,-⟩ := hproof.1 d hd hstatus
    simp [hlog] at hobserved
  · have hactions : outcome (createFirst ++ updateFirst 1 .suspended ++ verifyFirst 2 []) =
        some ([.verifying],[.admitted 1 1,.admitted 1 1,.changed 0 1 .pendingVerification .suspended (.update 1 1),.observed 0 [],
          .changed 0 1 .suspended .verifying .verify]) := by decide +kernel
    obtain ⟨s,hrun,hstatuses,hlog⟩ := run_of_outcome hactions
    have hchanged : .changed 0 1 .suspended .verifying .verify ∈ s.log := by simp [hlog]
    refine ⟨s,hrun,hstatuses,hchanged,fun hproof => ?_⟩
    obtain ⟨userId,hcause,-⟩ := hproof.2 0 1 .verifying .verify hchanged
    simp at hcause

end Runs
end JustMail.Domains
