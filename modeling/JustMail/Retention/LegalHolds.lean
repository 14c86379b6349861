import JustMail.Foundation.Tasks
import JustMail.Postfix.CatchAll

/-! Legal holds, and what deletes mail: pruning by age, and the removal of mailboxes and of domains. -/
namespace JustMail.Retention
open Foundation Postfix

section Model

structure DomainRow where
  id : Nat
  orgId : Nat
  name : Hostname

structure MailboxRow where
  id : Nat
  domainId : Nat
  localPart : LocalPart
  status : MailboxStatus
  deriving DecidableEq

/-- Without a mailbox the whole organisation is held. -/
structure HoldRow where
  id : Nat
  orgId : Nat
  mailboxId : Option Nat
  reason : JsString
  createdBy : Nat
  released : Bool
  deriving DecidableEq

structure PolicyRow where
  orgId : Nat
  enabled : Bool
  deleteAfterDays : Option Int
  folders : List JsString

/-- A message in the mail store, which knows a mailbox by its address. The date is in milliseconds. -/
structure StoredMessage where
  address : JsString
  folder : JsString
  uid : Nat
  internalDate : Int
  deriving DecidableEq

structure MailDirectory where
  domains : Table DomainRow.id
  mailboxes : Table MailboxRow.id
  domainName : (domains.rows.map (·.name)).Nodup
  mailboxAddress : (mailboxes.rows.map fun box => (box.domainId,box.localPart)).Nodup

namespace MailDirectory
variable (dir : MailDirectory)

def domainOf (box : MailboxRow) : Option DomainRow := dir.domains.lookup box.domainId

def orgOf (box : MailboxRow) : Option Nat := (dir.domainOf box).map (·.orgId)

/-- `m.local_part || '@' || d.name`. -/
def address (box : MailboxRow) : Option JsString := (dir.domainOf box).map fun d => box.localPart.text ++ AT :: d.name.text

def deleteMailbox (id : Nat) : MailDirectory where
  domains := dir.domains
  mailboxes := dir.mailboxes.deleteWhere (·.id == id)
  domainName := dir.domainName
  mailboxAddress := dir.mailboxAddress.sublist (List.filter_sublist.map _)

/-- The mailboxes of the domain go with it. -/
def deleteDomain (id : Nat) : MailDirectory where
  domains := dir.domains.deleteWhere (·.id == id)
  mailboxes := dir.mailboxes.deleteWhere (·.domainId == id)
  domainName := dir.domainName.sublist (List.filter_sublist.map _)
  mailboxAddress := dir.mailboxAddress.sublist (List.filter_sublist.map _)

end MailDirectory

/-- `inForce` are the holds whose creation has returned and that are not released since. -/
structure RetentionWorld where
  directory : MailDirectory
  holds : Table HoldRow.id
  policies : List PolicyRow
  mail : List StoredMessage
  inForce : List HoldRow

structure HoldRequest where
  orgId : Nat
  userId : Nat
  mailboxId : Option Nat
  reason : JsString

inductive RetentionOp where
  | createHold (req : HoldRequest)
  | releaseHold (orgId id : Nat)
  | runDuePruning
  | removeMailbox (orgId id : Nat)
  | removeDomain (orgId id : Nat)

inductive RetentionInstr where
  | requireRole
  | assertMailbox (req : HoldRequest)
  | rejectDuplicate (req : HoldRequest)
  | insertHold (req : HoldRequest)
  | getHold (orgId id : Nat)
  | releaseHold (orgId id : Nat)
  | getMailbox (orgId id : Nat)
  | deleteMailbox (id : Nat)
  | getDomain (orgId id : Nat)
  | deleteDomain (id : Nat)
  | duePolicies
  | pruneOrg (policy : PolicyRow)
  | pruneBoxes (policy : PolicyRow) (held : List Nat)
  | pruneMailbox (address : JsString) (folders : List JsString) (cutoff : Int)
  | pruneFolders (address : JsString) (folders : List JsString) (cutoff : Int)
  | messageDelete (address folder : JsString) (uids : List Nat) (folders : List JsString) (cutoff : Int)

/-- What an instruction meets: the database or the mail server answers, the role suffices, the id that is
drawn, the clock, there is a master user, and the folder can be locked. -/
structure RetentionEnv where
  answers : Bool
  allowed : Bool
  drawnId : Nat
  now : Int
  configured : Bool
  locked : Bool

def RetentionOp.body : RetentionOp → List RetentionInstr
  | .createHold req => [.requireRole,.assertMailbox req]
  | .releaseHold orgId id => [.requireRole,.releaseHold orgId id]
  | .runDuePruning => [.duePolicies]
  | .removeMailbox orgId id => [.requireRole,.requireRole,.getMailbox orgId id]
  | .removeDomain orgId id => [.requireRole,.requireRole,.getDomain orgId id]

/-- The errors of one organisation or mailbox are logged, and pruning goes on with the next. -/
def RetentionInstr.logsErrors : RetentionInstr → Bool
  | .pruneOrg _ | .pruneBoxes _ _ | .pruneMailbox _ _ _ | .pruneFolders _ _ _ | .messageDelete _ _ _ _ _ => true
  | _ => false

def PolicyRow.due (policy : PolicyRow) : Bool := policy.enabled && policy.deleteAfterDays.any (0 < ·)

namespace RetentionWorld
variable (w : RetentionWorld)

def active (orgId : Nat) : List HoldRow := w.holds.rows.filter fun hold => hold.orgId == orgId && !hold.released

/-- The organisation is held as a whole, and the mailboxes that are held. -/
def heldMailboxIds (orgId : Nat) : Bool × List Nat := ((w.active orgId).any (·.mailboxId.isNone),(w.active orgId).filterMap (·.mailboxId))

def findHold (orgId id : Nat) : Option HoldRow := w.holds.rows.find? fun hold => hold.orgId == orgId && hold.id == id

def findMailbox (orgId id : Nat) : Option MailboxRow := (w.directory.mailboxes.lookup id).filter (w.directory.orgOf · == some orgId)

/-- With the foreign key of its mailbox. -/
def insertHold (req : HoldRequest) (id : Nat) : Option RetentionWorld :=
  if req.mailboxId.all fun m => (w.directory.mailboxes.lookup m).isSome then
    if h : w.holds.lookup id = none then
      some { w with holds := w.holds.insert ⟨id,req.orgId,req.mailboxId,req.reason,req.userId,false⟩ h }
    else none
  else none

/-- The holds that go with the mailboxes. -/
def cascade (gone : MailboxRow → Bool) : Table HoldRow.id :=
  w.holds.deleteWhere fun hold => w.directory.mailboxes.rows.any fun box => gone box && hold.mailboxId == some box.id

def activeBoxes (orgId : Nat) : List (Nat × JsString) :=
  (w.directory.mailboxes.rows.filter fun box => w.directory.orgOf box == some orgId && box.status == .active).filterMap fun box =>
    (w.directory.address box).map (box.id,·)

-- the mail server's search for the messages before a date
variable (before : Int → StoredMessage → Bool)

def search (address folder : JsString) (cutoff : Int) : List Nat :=
  (w.mail.filter fun msg => msg.address == address && msg.folder == folder && before cutoff msg).map (·.uid)

def act (instr : RetentionInstr) (env : RetentionEnv) : RetentionWorld × Outcome RetentionInstr :=
  match instr with
  | .requireRole => (w,if env.allowed then .next [] else .throw)
  | .assertMailbox req =>
    (w,if req.mailboxId.all fun m => (w.findMailbox req.orgId m).isSome then .next [.rejectDuplicate req] else .throw)
  | .rejectDuplicate req => (w,if (w.active req.orgId).any (·.mailboxId == req.mailboxId) then .throw else .next [.insertHold req])
  | .insertHold req =>
    match w.insertHold req env.drawnId with
    | some w' => (w',.next [.requireRole,.getHold req.orgId env.drawnId])
    | none => (w,.throw)
  -- the creation returns
  | .getHold orgId id =>
    match w.findHold orgId id with
    | some hold => ({ w with inForce := if hold.released then w.inForce else hold :: w.inForce },.next [])
    | none => (w,.throw)
  | .releaseHold orgId id =>
    let held (hold : HoldRow) : Bool := hold.id == id && hold.orgId == orgId && !hold.released
    if w.holds.rows.any held then
      ({ w with holds := w.holds.updateWhere held ({ · with released := true }) fun _ => rfl,
                inForce := w.inForce.filter (!held ·) },.next [])
    else (w,.throw)
  | .getMailbox orgId id => (w,if (w.findMailbox orgId id).isSome then .next [.deleteMailbox id] else .throw)
  | .deleteMailbox id => ({ w with directory := w.directory.deleteMailbox id, holds := w.cascade (·.id == id) },.next [])
  | .getDomain orgId id =>
    (w,if (w.directory.domains.lookup id).any (·.orgId == orgId) ∧ w.directory.mailboxes.rows.countP (·.domainId == id) = 0 then
      .next [.deleteDomain id] else .throw)
  | .deleteDomain id => ({ w with directory := w.directory.deleteDomain id, holds := w.cascade (·.domainId == id) },.next [])
  | .duePolicies => (w,.next (if env.configured then (w.policies.filter (·.due)).map .pruneOrg else []))
  | .pruneOrg policy =>
    let held := w.heldMailboxIds policy.orgId
    (w,.next (if policy.folders.isEmpty || held.1 then [] else [.pruneBoxes policy held.2]))
  | .pruneBoxes policy held =>
    let cutoff := env.now - policy.deleteAfterDays.getD 0 * 86400000
    let boxes := (w.activeBoxes policy.orgId).filter fun box => !held.contains box.1
    (w,.next (boxes.map fun box => .pruneMailbox box.2 policy.folders cutoff))
  | .pruneMailbox address folders cutoff => (w,.next [.pruneFolders address folders cutoff])
  | .pruneFolders address folders cutoff =>
    (w,.next (match folders with
      | [] => []
      | folder :: rest =>
        let uids := if env.locked then w.search before address folder cutoff else []
        if uids.isEmpty then [.pruneFolders address rest cutoff] else [.messageDelete address folder uids rest cutoff]))
  | .messageDelete address folder uids rest cutoff =>
    ({ w with mail := w.mail.filter fun msg => !(msg.address == address && msg.folder == folder && uids.contains msg.uid) },
      .next [.pruneFolders address rest cutoff])

def exec (instr : RetentionInstr) (env : RetentionEnv) : Option (RetentionWorld × Outcome RetentionInstr) :=
  some (if env.answers then w.act before instr env else (w,if instr.logsErrors then .next [] else .throw))

/-- There are no holds yet. -/
def start (directory : MailDirectory) (policies : List PolicyRow) (mail : List StoredMessage) : RetentionWorld :=
  ⟨directory,.empty,policies,mail,[]⟩

def covers (hold : HoldRow) (box : MailboxRow) : Bool :=
  match hold.mailboxId with
  | some id => box.id == id
  | none => w.directory.orgOf box == some hold.orgId

end RetentionWorld

abbrev RetentionTasks := Tasks RetentionWorld RetentionInstr

def retentionStep (before : Int → StoredMessage → Bool) : RetentionTasks → TaskAction RetentionOp RetentionEnv → Option RetentionTasks :=
  taskStep (RetentionWorld.exec · before) RetentionOp.body

/-- From one state to a later one: the row of the hold is there until it is released, and so are the
mailboxes it covers and their mail. -/
structure Preserved (hold : HoldRow) (w w' : RetentionWorld) : Prop where
  row : hold ∈ w'.inForce → hold ∈ w'.holds.rows
  boxes : ∀ box ∈ w.directory.mailboxes.rows, w.covers hold box = true → box ∈ w'.directory.mailboxes.rows
  mail : ∀ box ∈ w.directory.mailboxes.rows, w.covers hold box = true → ∀ msg ∈ w.mail, w.directory.address box = some msg.address →
    msg ∈ w'.mail

/-- The instruction of a pruning that is under way is not about to reach what the hold covers. -/
def Spares (w : RetentionWorld) (hold : HoldRow) : RetentionInstr → Prop
  | .pruneBoxes policy held => policy.orgId = hold.orgId → hold.mailboxId.any held.contains = true
  | .pruneMailbox address _ _ | .pruneFolders address _ _ | .messageDelete address _ _ _ _ =>
    ∀ box ∈ w.directory.mailboxes.rows, w.directory.address box = some address → w.covers hold box = false
  | _ => True

/-- When the creation of a hold returns, every pruning under way spares what it covers; and no mailbox is
removed while a hold in force covers it. -/
def RespectsHolds (s : RetentionTasks) : RetentionInstr → Prop
  | .getHold orgId id => ∀ hold ∈ s.shared.findHold orgId id, hold.released = false →
    ∀ task ∈ s.running, ∀ instr ∈ task, Spares s.shared hold instr
  | .deleteMailbox id => ∀ box ∈ s.shared.directory.mailboxes.rows, box.id = id →
      ∀ hold ∈ s.shared.inForce, s.shared.covers hold box = false
  | _ => True

def HoldsRespected (s : RetentionTasks) (a : TaskAction RetentionOp RetentionEnv) : Prop := ∀ instr ∈ s.instr a, RespectsHolds s instr

def WhileInForce (hold : HoldRow) (s : RetentionTasks) (_ : TaskAction RetentionOp RetentionEnv) : Prop := hold ∈ s.shared.inForce

instance (w : RetentionWorld) (hold : HoldRow) : (instr : RetentionInstr) → Decidable (Spares w hold instr)
  | .pruneBoxes policy held => inferInstanceAs (Decidable (policy.orgId = hold.orgId → hold.mailboxId.any held.contains = true))
  | .pruneMailbox address _ _ | .pruneFolders address _ _ | .messageDelete address _ _ _ _ =>
    inferInstanceAs (Decidable (∀ box ∈ w.directory.mailboxes.rows, w.directory.address box = some address → w.covers hold box = false))
  | .requireRole | .assertMailbox _ | .rejectDuplicate _ | .insertHold _ | .getHold _ _ | .releaseHold _ _ | .getMailbox _ _
  | .deleteMailbox _ | .getDomain _ _ | .deleteDomain _ | .duePolicies | .pruneOrg _ => .isTrue trivial

instance (s : RetentionTasks) : (instr : RetentionInstr) → Decidable (RespectsHolds s instr)
  | .getHold orgId id => inferInstanceAs (Decidable (∀ hold ∈ s.shared.findHold orgId id, hold.released = false →
    ∀ task ∈ s.running, ∀ instr ∈ task, Spares s.shared hold instr))
  | .deleteMailbox id => inferInstanceAs (Decidable (∀ box ∈ s.shared.directory.mailboxes.rows, box.id = id →
    ∀ hold ∈ s.shared.inForce, s.shared.covers hold box = false))
  | .requireRole | .assertMailbox _ | .rejectDuplicate _ | .insertHold _ | .releaseHold _ _ | .getMailbox _ _ | .getDomain _ _
  | .deleteDomain _ | .duePolicies | .pruneOrg _ | .pruneBoxes _ _ | .pruneMailbox _ _ _ | .pruneFolders _ _ _
  | .messageDelete _ _ _ _ _ => .isTrue trivial

instance (s : RetentionTasks) (a : TaskAction RetentionOp RetentionEnv) : Decidable (HoldsRespected s a) :=
  inferInstanceAs (Decidable (∀ instr ∈ s.instr a, RespectsHolds s instr))

instance (hold : HoldRow) (s : RetentionTasks) (a : TaskAction RetentionOp RetentionEnv) : Decidable (WhileInForce hold s a) :=
  inferInstanceAs (Decidable (hold ∈ s.shared.inForce))

end Model

section Directory
variable {dir dir' : MailDirectory} {box box' : MailboxRow} {text : JsString}

theorem address_unique (hbox : box ∈ dir.mailboxes.rows) (hbox' : box' ∈ dir.mailboxes.rows) (h : dir.address box = some text)
    (h' : dir.address box' = some text) : box = box' := by
  obtain ⟨d,hd,rfl⟩ := Option.map_eq_some_iff.mp h
  obtain ⟨d',hd',hsame⟩ := Option.map_eq_some_iff.mp h'
  obtain ⟨hlocal,hname⟩ := mailText_inj hsame
  obtain ⟨hmem,hid⟩ := Table.lookup_eq_some.mp hd
  obtain ⟨hmem',hid'⟩ := Table.lookup_eq_some.mp hd'
  have hdomain : d' = d := List.inj_on_of_nodup_map dir.domainName hmem' hmem hname
  have hdomainId : box.domainId = box'.domainId := by rw [← hid,← hid',hdomain]
  exact List.inj_on_of_nodup_map dir.mailboxAddress hbox hbox' (Prod.ext hdomainId hlocal.symm)

/-- Mailboxes are lost, and those that are left stay in their domains. -/
structure Shrinks (dir dir' : MailDirectory) : Prop where
  boxes : dir'.mailboxes.rows ⊆ dir.mailboxes.rows
  domain : ∀ box ∈ dir'.mailboxes.rows, dir'.domainOf box = dir.domainOf box

theorem Shrinks.refl (dir : MailDirectory) : Shrinks dir dir := ⟨List.Subset.refl _,fun _ _ => rfl⟩

theorem Shrinks.org (h : Shrinks dir dir') (hbox : box ∈ dir'.mailboxes.rows) : dir'.orgOf box = dir.orgOf box := by
  rw [MailDirectory.orgOf,h.domain box hbox,MailDirectory.orgOf]

theorem Shrinks.address (h : Shrinks dir dir') (hbox : box ∈ dir'.mailboxes.rows) : dir'.address box = dir.address box := by
  rw [MailDirectory.address,h.domain box hbox,MailDirectory.address]

theorem shrinks_deleteMailbox (dir : MailDirectory) (id : Nat) : Shrinks dir (dir.deleteMailbox id) :=
  ⟨List.filter_subset_self _,fun _ _ => rfl⟩

theorem shrinks_deleteDomain (dir : MailDirectory) (id : Nat) : Shrinks dir (dir.deleteDomain id) := by
  refine ⟨List.filter_subset_self _,fun box hbox => ?_⟩
  have hother : box.domainId ≠ id := by simpa using (List.mem_filter.mp hbox).2
  rw [MailDirectory.domainOf,MailDirectory.deleteDomain,Table.lookup_deleteWhere,MailDirectory.domainOf]
  cases hd : dir.domains.lookup box.domainId with
  | none => rfl
  | some d => simp [Table.key_of_lookup hd,hother]

end Directory

section Steps
variable {before : Int → StoredMessage → Bool} {w w' : RetentionWorld} {hold : HoldRow} {box : MailboxRow} {instr : RetentionInstr}

theorem covers_of_domain (h : w'.directory.domainOf box = w.directory.domainOf box) (hold : HoldRow) :
    w'.covers hold box = w.covers hold box := by
  rw [RetentionWorld.covers,MailDirectory.orgOf,h,RetentionWorld.covers,MailDirectory.orgOf]

theorem covers_shrinks (h : Shrinks w.directory w'.directory) (hbox : box ∈ w'.directory.mailboxes.rows) (hold : HoldRow) :
    w'.covers hold box = w.covers hold box := covers_of_domain (h.domain box hbox) hold

/-- What a request has checked, of the mailbox of a hold and of the domain it deletes. -/
def Checked (w : RetentionWorld) : RetentionInstr → Prop
  | .rejectDuplicate req | .insertHold req =>
    ∀ box ∈ w.directory.mailboxes.rows, req.mailboxId = some box.id → w.directory.orgOf box = some req.orgId
  | .deleteDomain id => ∀ box ∈ w.directory.mailboxes.rows, box.domainId ≠ id
  | _ => True

theorem Checked.shrinks (h : Checked w instr) (hshrinks : Shrinks w.directory w'.directory) : Checked w' instr := by
  cases instr with
  | rejectDuplicate req | insertHold req =>
    intro box hbox hid
    rw [hshrinks.org hbox]
    exact h box (hshrinks.boxes hbox) hid
  | deleteDomain id => exact fun box hbox => h box (hshrinks.boxes hbox)
  | _ => trivial

theorem Spares.shrinks (h : Spares w hold instr) (hshrinks : Shrinks w.directory w'.directory) : Spares w' hold instr := by
  cases instr with
  | pruneBoxes policy held => exact h
  | pruneMailbox address | pruneFolders address | messageDelete address =>
    intro box hbox haddress
    rw [hshrinks.address hbox] at haddress
    rw [covers_shrinks hshrinks hbox]
    exact h box (hshrinks.boxes hbox) haddress
  | _ => trivial

structure WorldInv (w : RetentionWorld) : Prop where
  inForce : ∀ hold ∈ w.inForce, hold ∈ w.holds.rows ∧ hold.released = false
  sameOrg : ∀ hold ∈ w.holds.rows, ∀ box ∈ w.directory.mailboxes.rows, hold.mailboxId = some box.id →
    w.directory.orgOf box = some hold.orgId

structure InstrInv (w : RetentionWorld) (instr : RetentionInstr) : Prop where
  checked : Checked w instr
  spares : ∀ hold ∈ w.inForce, Spares w hold instr

theorem InstrInv.shrinks (h : InstrInv w instr) (hshrinks : Shrinks w.directory w'.directory) (hforce : w'.inForce ⊆ w.inForce) :
    InstrInv w' instr :=
  ⟨h.checked.shrinks hshrinks,fun hold hhold => (h.spares hold (hforce hhold)).shrinks hshrinks⟩

/-- What a hold covers in the one state it covers in the other, with the mail. -/
def Guarded (hold : HoldRow) (w w' : RetentionWorld) : Prop :=
  ∀ box ∈ w.directory.mailboxes.rows, w.covers hold box = true → box ∈ w'.directory.mailboxes.rows ∧
    w'.directory.domainOf box = w.directory.domainOf box ∧
    ∀ msg ∈ w.mail, w.directory.address box = some msg.address → msg ∈ w'.mail

theorem Guarded.refl (hold : HoldRow) (w : RetentionWorld) : Guarded hold w w := fun _ hbox _ => ⟨hbox,rfl,fun _ hmsg _ => hmsg⟩

theorem Guarded.trans {w'' : RetentionWorld} (h : Guarded hold w w') (h' : Guarded hold w' w'') : Guarded hold w w'' := by
  intro box hbox hcovers
  obtain ⟨hbox',hdomain,hmail⟩ := h box hbox hcovers
  have hcovers' : w'.covers hold box = true := (covers_of_domain hdomain hold).trans hcovers
  have haddress : w'.directory.address box = w.directory.address box := by rw [MailDirectory.address,hdomain,MailDirectory.address]
  obtain ⟨hbox'',hdomain',hmail'⟩ := h' box hbox' hcovers'
  exact ⟨hbox'',hdomain'.trans hdomain,fun msg hmsg hat => hmail' msg (hmail msg hmsg hat) (haddress.trans hat)⟩

theorem guarded_of_shrinks (h : Shrinks w.directory w'.directory) (hmail : w'.mail = w.mail)
    (hkeeps : ∀ box ∈ w.directory.mailboxes.rows, w.covers hold box = true → box ∈ w'.directory.mailboxes.rows) : Guarded hold w w' := by
  intro box hbox hcovers
  have hbox' := hkeeps box hbox hcovers
  exact ⟨hbox',h.domain box hbox',fun msg hmsg _ => hmail ▸ hmsg⟩

theorem covers_own (h : hold.mailboxId = some box.id) : w.covers hold box = true := by simp [RetentionWorld.covers,h]

def RetentionInv (s : RetentionTasks) : Prop := WorldInv s.shared ∧ ∀ instr, s.Pending instr → InstrInv s.shared instr

/-- What an instruction leaves of the invariant, and what it does not delete. -/
structure Kept (s : RetentionTasks) (w' : RetentionWorld) (outcome : Outcome RetentionInstr) : Prop where
  inv : WorldInv w'
  others : ∀ instr, s.Pending instr → InstrInv w' instr
  more : outcome.Adds (InstrInv w')
  guarded : ∀ hold ∈ s.shared.inForce, Guarded hold s.shared w'

variable {s : RetentionTasks} {outcome : Outcome RetentionInstr} {more : List RetentionInstr}

theorem kept_same (h : RetentionInv s) (hmore : outcome.Adds (InstrInv s.shared)) : Kept s s.shared outcome :=
  ⟨h.1,h.2,hmore,fun hold _ => Guarded.refl hold s.shared⟩

theorem kept_check (h : RetentionInv s) {p : Prop} [Decidable p] (hmore : p → (Outcome.next more).Adds (InstrInv s.shared)) :
    Kept s s.shared (if p then .next more else .throw) :=
  kept_same h (Outcome.adds_ite hmore fun _ => trivial)

theorem mem_active {orgId : Nat} : hold ∈ w.active orgId ↔ hold ∈ w.holds.rows ∧ hold.orgId = orgId ∧ hold.released = false := by
  simp [RetentionWorld.active]

theorem orgOf_findMailbox {orgId id : Nat} (h : (w.findMailbox orgId id).isSome = true) (hbox : box ∈ w.directory.mailboxes.rows)
    (hid : id = box.id) : w.directory.orgOf box = some orgId := by
  obtain ⟨box',hbox'⟩ := Option.isSome_iff_exists.mp h
  obtain ⟨hlookup,horg⟩ := Option.filter_eq_some_iff.mp hbox'
  rw [hid,Table.lookup_of_mem hbox] at hlookup
  cases hlookup
  exact eq_of_beq horg

theorem kept_assertMailbox (h : RetentionInv s) (req : HoldRequest) {env : RetentionEnv} :
    Kept s s.shared (s.shared.act before (.assertMailbox req) env).2 := by
  refine kept_check h fun hfound instr hinstr => ?_
  obtain rfl := List.mem_singleton.mp hinstr
  refine ⟨fun box hbox hid => ?_,fun _ _ => trivial⟩
  rw [hid] at hfound
  exact orgOf_findMailbox hfound hbox rfl

theorem kept_insertHold (h : RetentionInv s) {req : HoldRequest} (hpending : s.Pending (.insertHold req)) {id : Nat}
    (hinsert : s.shared.insertHold req id = some w') : Kept s w' (.next [.requireRole,.getHold req.orgId id]) := by
  rw [RetentionWorld.insertHold] at hinsert
  split at hinsert
  · split at hinsert
    · cases hinsert
      refine ⟨⟨fun hold hhold => ?_,fun hold hhold box hbox hid => ?_⟩,fun instr hinstr => ?_,fun instr hinstr => ?_,fun hold _ => ?_⟩
      · exact ⟨List.mem_append_left _ (h.1.inForce hold hhold).1,(h.1.inForce hold hhold).2⟩
      · rcases List.mem_append.mp hhold with hold' | hnew
        · exact h.1.sameOrg hold hold' box hbox hid
        · obtain rfl := List.mem_singleton.mp hnew
          exact (h.2 _ hpending).checked box hbox hid
      · exact (h.2 instr hinstr).shrinks (Shrinks.refl _) (List.Subset.refl _)
      · simp only [List.mem_cons,List.not_mem_nil,or_false] at hinstr
        rcases hinstr with rfl | rfl <;> exact ⟨trivial,fun _ _ => trivial⟩
      · exact guarded_of_shrinks (Shrinks.refl _) rfl fun _ hbox _ => hbox
    · simp at hinsert
  · simp at hinsert

theorem kept_getHold (h : RetentionInv s) {orgId id : Nat} (hrespects : RespectsHolds s (.getHold orgId id))
    (hfind : s.shared.findHold orgId id = some hold) :
    Kept s { s.shared with inForce := if hold.released then s.shared.inForce else hold :: s.shared.inForce } (.next []) := by
  have hrow : hold ∈ s.shared.holds.rows := List.mem_of_find?_eq_some hfind
  cases hreleased : hold.released with
  | true => exact kept_same h (Outcome.adds_nil _)
  | false =>
    refine ⟨⟨fun hold' hhold' => ?_,h.1.sameOrg⟩,fun instr hinstr => ?_,Outcome.adds_nil _,fun hold' _ => ?_⟩
    · rcases List.mem_cons.mp hhold' with rfl | hold'
      · exact ⟨hrow,hreleased⟩
      · exact h.1.inForce _ hold'
    · refine ⟨(h.2 instr hinstr).checked.shrinks (Shrinks.refl _),fun hold' hhold' => ?_⟩
      rcases List.mem_cons.mp hhold' with rfl | hold'
      · obtain ⟨task,htask,hmem⟩ := hinstr
        exact (hrespects hold' hfind hreleased task htask instr hmem).shrinks (Shrinks.refl _)
      · exact ((h.2 instr hinstr).spares _ hold').shrinks (Shrinks.refl _)
    · exact guarded_of_shrinks (Shrinks.refl _) rfl fun _ hbox _ => hbox

theorem kept_releaseHold (h : RetentionInv s) (held : HoldRow → Bool) :
    Kept s { s.shared with
      holds := s.shared.holds.updateWhere held ({ · with released := true }) fun _ => rfl,
      inForce := s.shared.inForce.filter (!held ·) } (.next []) := by
  refine ⟨⟨fun hold hhold => ?_,fun hold hhold box hbox hid => ?_⟩,fun instr hinstr => ?_,Outcome.adds_nil _,fun hold _ => ?_⟩
  · obtain ⟨hwas,hother⟩ := List.mem_filter.mp hhold
    obtain ⟨hrow,hreleased⟩ := h.1.inForce hold hwas
    refine ⟨List.mem_map.mpr ⟨hold,hrow,if_neg ?_⟩,hreleased⟩
    simpa using hother
  · obtain ⟨old,hold',rfl⟩ := List.mem_map.mp hhold
    have hkept : (if held old then { old with released := true } else old).mailboxId = old.mailboxId ∧
        (if held old then { old with released := true } else old).orgId = old.orgId := by
      split <;> exact ⟨rfl,rfl⟩
    rw [hkept.2]
    exact h.1.sameOrg old hold' box hbox (hkept.1.symm.trans hid)
  · exact (h.2 instr hinstr).shrinks (Shrinks.refl _) (List.filter_subset_self _)
  · exact guarded_of_shrinks (Shrinks.refl _) rfl fun _ hbox _ => hbox

theorem kept_removal (h : RetentionInv s) {dir : MailDirectory} {gone : MailboxRow → Bool} (hshrinks : Shrinks s.shared.directory dir)
    (hleft : ∀ box ∈ s.shared.directory.mailboxes.rows, gone box = false → box ∈ dir.mailboxes.rows)
    (hfree : ∀ box ∈ s.shared.directory.mailboxes.rows, gone box = true → ∀ hold ∈ s.shared.inForce, s.shared.covers hold box = false) :
    Kept s { s.shared with directory := dir, holds := s.shared.cascade gone } (.next []) := by
  refine ⟨⟨fun hold hhold => ?_,fun hold hhold box hbox hid => ?_⟩,fun instr hinstr => ?_,Outcome.adds_nil _,fun hold hhold => ?_⟩
  · obtain ⟨hrow,hreleased⟩ := h.1.inForce hold hhold
    refine ⟨List.mem_filter.mpr ⟨hrow,?_⟩,hreleased⟩
    rw [Bool.not_eq_true',List.any_eq_false]
    intro box hbox hcascade
    obtain ⟨hgone,hid⟩ := Bool.and_eq_true_iff.mp hcascade
    have hcovers : s.shared.covers hold box = true := covers_own (eq_of_beq hid)
    simp [hfree box hbox hgone hold hhold] at hcovers
  · rw [hshrinks.org hbox]
    exact h.1.sameOrg hold (List.mem_of_mem_filter hhold) box (hshrinks.boxes hbox) hid
  · exact (h.2 instr hinstr).shrinks hshrinks (List.Subset.refl _)
  · refine guarded_of_shrinks hshrinks rfl fun box hbox hcovers => hleft box hbox ?_
    rw [Bool.eq_false_iff]
    intro hgone
    simp [hfree box hbox hgone hold hhold] at hcovers

theorem kept_deleteMailbox (h : RetentionInv s) {id : Nat} (hrespects : RespectsHolds s (.deleteMailbox id)) :
    Kept s { s.shared with directory := s.shared.directory.deleteMailbox id, holds := s.shared.cascade (·.id == id) } (.next []) := by
  refine kept_removal h (shrinks_deleteMailbox _ id) (fun box hbox hother => ?_) fun box hbox hgone => hrespects box hbox (eq_of_beq hgone)
  exact List.mem_filter.mpr ⟨hbox,by simpa using hother⟩

/-- A domain that is removed has no mailboxes. -/
theorem kept_deleteDomain (h : RetentionInv s) {id : Nat} (hpending : s.Pending (.deleteDomain id)) :
    Kept s { s.shared with directory := s.shared.directory.deleteDomain id, holds := s.shared.cascade (·.domainId == id) } (.next []) := by
  have hempty : ∀ box ∈ s.shared.directory.mailboxes.rows, box.domainId ≠ id := (h.2 _ hpending).checked
  refine kept_removal h (shrinks_deleteDomain _ id) (fun box hbox hother => ?_) fun box hbox hgone =>
    absurd (eq_of_beq hgone) (hempty box hbox)
  exact List.mem_filter.mpr ⟨hbox,by simpa using hother⟩

/-- The holds in force are among those that pruning reads. -/
theorem spares_pruneBoxes (h : RetentionInv s) {policy : PolicyRow} (horgWide : (s.shared.heldMailboxIds policy.orgId).1 = false)
    (hold : HoldRow) (hhold : hold ∈ s.shared.inForce) :
    Spares s.shared hold (.pruneBoxes policy (s.shared.heldMailboxIds policy.orgId).2) := by
  intro horg
  obtain ⟨hrow,hreleased⟩ := h.1.inForce hold hhold
  have hactive : hold ∈ s.shared.active policy.orgId := mem_active.mpr ⟨hrow,horg.symm,hreleased⟩
  cases hmailbox : hold.mailboxId with
  | none =>
    have hnone := List.any_eq_false.mp horgWide hold hactive
    simp [hmailbox] at hnone
  | some id =>
    have hid : id ∈ (s.shared.heldMailboxIds policy.orgId).2 := List.mem_filterMap.mpr ⟨hold,hactive,hmailbox⟩
    simpa using hid

/-- A mailbox that pruning does not skip is covered by no hold in force. -/
theorem spares_pruneMailbox (h : RetentionInv s) {policy : PolicyRow} {held : List Nat} (hpending : s.Pending (.pruneBoxes policy held))
    {found : Nat × JsString} (hfound : found ∈ s.shared.activeBoxes policy.orgId) (hskip : held.contains found.1 = false) (hold : HoldRow)
    (hhold : hold ∈ s.shared.inForce) (folders : List JsString) (cutoff : Int) :
    Spares s.shared hold (.pruneMailbox found.2 folders cutoff) := by
  obtain ⟨box,hbox,hat⟩ := List.mem_filterMap.mp hfound
  obtain ⟨haddress,htext,rfl⟩ := Option.map_eq_some_iff.mp hat
  obtain ⟨hmem,hchosen⟩ := List.mem_filter.mp hbox
  have horg : s.shared.directory.orgOf box = some policy.orgId := eq_of_beq (Bool.and_eq_true_iff.mp hchosen).1
  have hspares : policy.orgId = hold.orgId → hold.mailboxId.any held.contains = true := (h.2 _ hpending).spares hold hhold
  intro box' hbox' haddress'
  obtain rfl := address_unique hmem hbox' htext haddress'
  rw [Bool.eq_false_iff]
  intro hcovers
  rw [RetentionWorld.covers] at hcovers
  cases hmailbox : hold.mailboxId with
  | none =>
    rw [hmailbox,horg] at hcovers
    simp [hmailbox,Option.some.inj (eq_of_beq hcovers)] at hspares
  | some id =>
    rw [hmailbox] at hcovers
    have hown : hold.mailboxId = some box.id := hmailbox.trans (congrArg some (eq_of_beq hcovers).symm)
    have hsame := h.1.sameOrg hold (h.1.inForce hold hhold).1 box hmem hown
    have hlisted := hspares (Option.some.inj (horg.symm.trans hsame))
    rw [hown,Option.any_some] at hlisted
    exact absurd hlisted (by rw [hskip]; exact Bool.false_ne_true)

theorem kept_messageDelete (h : RetentionInv s) {address folder : JsString} {uids : List Nat} {rest : List JsString} {cutoff : Int}
    (hpending : s.Pending (.messageDelete address folder uids rest cutoff)) (gone : StoredMessage → Bool)
    (hgone : ∀ msg, gone msg = true → msg.address = address) :
    Kept s { s.shared with mail := s.shared.mail.filter (!gone ·) } (.next [.pruneFolders address rest cutoff]) := by
  have hinstr := h.2 _ hpending
  refine ⟨⟨h.1.inForce,h.1.sameOrg⟩,fun instr hinstr => (h.2 instr hinstr).shrinks (Shrinks.refl _) (List.Subset.refl _),
    Outcome.adds_one ⟨trivial,fun hold hhold => hinstr.spares hold hhold⟩,?_⟩
  · intro hold hhold box hbox hcovers
    refine ⟨hbox,rfl,fun msg hmsg hat => List.mem_filter.mpr ⟨hmsg,?_⟩⟩
    have hspares : ∀ box ∈ s.shared.directory.mailboxes.rows, s.shared.directory.address box = some address →
        s.shared.covers hold box = false := hinstr.spares hold hhold
    rw [Bool.not_eq_true',Bool.eq_false_iff]
    intro hmatch
    rw [hgone msg hmatch] at hat
    simp [hspares box hbox hat] at hcovers

/-- Instructions of which nothing has to be known. -/
theorem instrInv_free (hchecked : Checked w instr) (hspares : ∀ hold, Spares w hold instr) :
    InstrInv w instr := ⟨hchecked,fun hold _ => hspares hold⟩

theorem kept_act (h : RetentionInv s) (hpending : s.Pending instr) (hrespects : RespectsHolds s instr) (env : RetentionEnv) :
    Kept s (s.shared.act before instr env).1 (s.shared.act before instr env).2 := by
  have hinstr := h.2 instr hpending
  cases instr with
  | requireRole => exact kept_check h fun _ => Outcome.adds_nil _
  | assertMailbox req => exact kept_assertMailbox h req
  | rejectDuplicate req =>
    rw [RetentionWorld.act]
    refine kept_same h (Outcome.adds_ite (fun _ => trivial) fun _ => ?_)
    exact Outcome.adds_one (instrInv_free hinstr.checked fun _ => trivial)
  | insertHold req =>
    rw [RetentionWorld.act]
    cases hinsert : s.shared.insertHold req env.drawnId with
    | none => exact kept_same h trivial
    | some w' => exact kept_insertHold h hpending hinsert
  | getHold orgId id =>
    rw [RetentionWorld.act]
    cases hfind : s.shared.findHold orgId id with
    | none => exact kept_same h trivial
    | some hold => exact kept_getHold h hrespects hfind
  | releaseHold orgId id =>
    rw [RetentionWorld.act]
    dsimp only
    split
    · exact kept_releaseHold h _
    · exact kept_same h trivial
  | getMailbox orgId id =>
    exact kept_check h fun _ => Outcome.adds_one (instrInv_free trivial fun _ => trivial)
  | deleteMailbox id => exact kept_deleteMailbox h hrespects
  | getDomain orgId id =>
    refine kept_check h fun hfound => Outcome.adds_one (instrInv_free (fun box hbox => ?_) fun _ => trivial)
    simpa using List.countP_eq_zero.mp hfound.2 box hbox
  | deleteDomain id => exact kept_deleteDomain h hpending
  | duePolicies =>
    refine kept_same h fun instr hmem => ?_
    split at hmem
    · obtain ⟨policy,-,rfl⟩ := List.mem_map.mp hmem
      exact instrInv_free trivial fun _ => trivial
    · exact absurd hmem List.not_mem_nil
  | pruneOrg policy =>
    refine kept_same h fun instr hmem => ?_
    split at hmem
    · exact absurd hmem List.not_mem_nil
    · rename_i hgoes
      obtain rfl := List.mem_singleton.mp hmem
      have horgWide : (s.shared.heldMailboxIds policy.orgId).1 = false := by
        rw [Bool.not_eq_true,Bool.or_eq_false_iff] at hgoes
        exact hgoes.2
      exact ⟨trivial,spares_pruneBoxes h horgWide⟩
  | pruneBoxes policy held =>
    refine kept_same h fun instr hmem => ?_
    obtain ⟨found,hfound,rfl⟩ := List.mem_map.mp hmem
    obtain ⟨hbox,hskip⟩ := List.mem_filter.mp hfound
    exact ⟨trivial,fun hold hhold => spares_pruneMailbox h hpending hbox (by simpa using hskip) hold hhold _ _⟩
  | pruneMailbox address folders cutoff =>
    exact kept_same h (Outcome.adds_one ⟨trivial,fun hold hhold => hinstr.spares hold hhold⟩)
  | pruneFolders address folders cutoff =>
    refine kept_same h fun instr hmem => ?_
    cases folders with
    | nil => exact absurd hmem List.not_mem_nil
    | cons folder rest =>
      dsimp only at hmem
      generalize (if env.locked = true then s.shared.search before address folder cutoff else []) = uids at hmem
      split at hmem
      all_goals
        obtain rfl := List.mem_singleton.mp hmem
        exact ⟨trivial,fun hold hhold => hinstr.spares hold hhold⟩
  | messageDelete address folder uids rest cutoff =>
    refine kept_messageDelete h hpending (fun msg => msg.address == address && msg.folder == folder &&
      uids.contains msg.uid) fun msg hgone => ?_
    exact eq_of_beq (Bool.and_eq_true_iff.mp (Bool.and_eq_true_iff.mp hgone).1).1

theorem kept_exec (h : RetentionInv s) (hpending : s.Pending instr) (hrespects : RespectsHolds s instr) {env : RetentionEnv}
    (hexec : s.shared.exec before instr env = some (w',outcome)) : Kept s w' outcome := by
  rw [RetentionWorld.exec] at hexec
  split at hexec
  · obtain ⟨rfl,rfl⟩ := Prod.mk.inj (Option.some.inj hexec)
    exact kept_act h hpending hrespects env
  · cases hexec
    exact kept_same h (Outcome.adds_ite (fun _ => Outcome.adds_nil _) fun _ => trivial)

end Steps

section Runs
variable {before : Int → StoredMessage → Bool} {s t : RetentionTasks} {a : TaskAction RetentionOp RetentionEnv} {hold : HoldRow}

theorem body_free (w : RetentionWorld) (op : RetentionOp) : ∀ instr ∈ op.body, InstrInv w instr := by
  intro instr hinstr
  cases op
  all_goals
    simp only [RetentionOp.body,List.mem_cons,List.not_mem_nil,or_false] at hinstr
    rcases hinstr with rfl | rfl | rfl <;> exact instrInv_free trivial fun _ => trivial

theorem retention_step (h : RetentionInv s) (hrespected : HoldsRespected s a) (hstep : retentionStep before s a = some t) :
    RetentionInv t ∧ ∀ hold ∈ s.shared.inForce, Guarded hold s.shared t.shared := by
  rcases taskStep_cases hstep with ⟨op,rfl,rfl⟩ | ⟨i,env,instr,rest,w',outcome,rfl,hi,hexec,rfl⟩
  · refine ⟨⟨h.1,fun instr hinstr => ?_⟩,fun hold _ => Guarded.refl hold s.shared⟩
    rcases Tasks.pending_call hinstr with hold | hnew
    · exact h.2 instr hold
    · exact body_free s.shared op instr hnew
  · have hkept := kept_exec h (Tasks.pending_head hi) (hrespected instr (Tasks.instr_exec hi)) hexec
    exact ⟨⟨hkept.inv,Tasks.forall_pending_exec hi hkept.others hkept.more⟩,hkept.guarded⟩

theorem retentionInv_start (directory : MailDirectory) (policies : List PolicyRow) (mail : List StoredMessage) :
    RetentionInv ⟨RetentionWorld.start directory policies mail,[]⟩ := by
  refine ⟨⟨?_,?_⟩,?_⟩
  · exact fun _ hhold => absurd hhold List.not_mem_nil
  · exact fun _ hhold => absurd hhold List.not_mem_nil
  · exact fun _ ⟨_,htask,_⟩ => absurd htask List.not_mem_nil

/-- In a run whose steps respect the holds, nothing is lost that a hold covers from when its creation has
returned until it is released. -/
theorem holds_preserve_mail {directory : MailDirectory} {policies : List PolicyRow} {mail : List StoredMessage}
    (hrun : Run (retentionStep before) HoldsRespected ⟨RetentionWorld.start directory policies mail,[]⟩ s)
    (hheld : Run (retentionStep before) (fun s a => HoldsRespected s a ∧ WhileInForce hold s a) s t) :
    Preserved hold s.shared t.shared := by
  have hinv : RetentionInv s := by
    refine hrun.invariant (fun s a t h hrespected hstep => ?_) (retentionInv_start directory policies mail)
    exact (retention_step h hrespected hstep).1
  have hinv' : RetentionInv t := by
    refine hheld.invariant (fun s a t h hallowed hstep => ?_) hinv
    exact (retention_step h hallowed.1 hstep).1
  have hguarded : Guarded hold s.shared t.shared := by
    refine @Run.relates RetentionTasks _ _ _ s t RetentionInv (fun s t => Guarded hold s.shared t.shared)
      (fun s => Guarded.refl hold s.shared)
      (fun _ _ _ h h' => h.trans h') (fun s a t h hallowed hstep => ?_) (fun s a t h hallowed hstep => ?_) hheld hinv
    · exact (retention_step h hallowed.1 hstep).1
    · exact (retention_step h hallowed.1 hstep).2 hold hallowed.2
  exact ⟨fun hforce => (hinv'.1.inForce hold hforce).1,fun box hbox hcovers => (hguarded box hbox hcovers).1,
    fun box hbox hcovers => (hguarded box hbox hcovers).2.2⟩

def archive : MailboxRow := ⟨1,7,⟨js "archive",by decide,by decide⟩,.active⟩
def lists : MailboxRow := ⟨2,7,⟨js "lists",by decide,by decide⟩,.active⟩

def twoMailboxes : MailDirectory where
  domains := ⟨[⟨7,5,⟨js "firm.example",by decide,by decide⟩⟩],by decide⟩
  mailboxes := ⟨[archive,lists],by decide⟩
  domainName := List.nodup_singleton _
  mailboxAddress := by decide

def oldMessage (address : JsString) : StoredMessage := ⟨address,js "Trash",1,0⟩
def archived : StoredMessage := oldMessage (js "archive@firm.example")
def listed : StoredMessage := oldMessage (js "lists@firm.example")

def oneDay : PolicyRow := ⟨5,true,some 1,[js "Trash"]⟩

def archiveHold : HoldRow := ⟨9,5,some 1,js "audit",3,false⟩
def holdArchive : TaskAction RetentionOp RetentionEnv := .call (.createHold ⟨5,3,some 1,js "audit"⟩)

def olderThan (cutoff : Int) (msg : StoredMessage) : Bool := msg.internalDate < cutoff
def laterDay : RetentionEnv := ⟨true,true,9,172800000,true,true⟩
def retentionStart : RetentionTasks := ⟨.start twoMailboxes [oneDay] [archived,listed],[]⟩

/-- A pruning after the hold takes the mail of the other mailbox alone. -/
theorem held_mailbox_skipped : ∃ s t : RetentionTasks, s.shared.mail = [archived,listed] ∧
    t.shared.mail = [archived] ∧ archiveHold ∈ t.shared.inForce ∧
    Preserved archiveHold s.shared t.shared := by
  have hactions : ((runActions (retentionStep olderThan) HoldsRespected retentionStart
    (holdArchive :: List.replicate 6 (.exec 0 laterDay))).bind
      fun s => (runActions (retentionStep olderThan) (fun s a => HoldsRespected s a ∧ WhileInForce archiveHold s a) s
        (.call .runDuePruning :: List.replicate 6 (.exec 1 laterDay))).map fun t => (s.shared.mail,t.shared.mail,t.shared.inForce)) =
      some ([archived,listed],[archived],[archiveHold]) := by decide +kernel
  obtain ⟨s,hs,hrest⟩ := Option.bind_eq_some_iff.mp hactions
  obtain ⟨t,ht,hends⟩ := Option.map_eq_some_iff.mp hrest
  obtain ⟨hbefore,hends⟩ := Prod.mk.inj hends
  obtain ⟨hafter,hforce⟩ := Prod.mk.inj hends
  exact ⟨s,t,hbefore,hafter,hforce ▸ List.mem_singleton_self _,holds_preserve_mail (Run.of_actions hs) (Run.of_actions ht)⟩

/-- A pruning that has read the holds deletes mail that is held by then; and the removal of the mailbox takes
the hold with it. -/
theorem hold_overtaken : ∃ s t, Run (retentionStep olderThan) (fun _ _ => True) retentionStart s ∧
    Run (retentionStep olderThan) (WhileInForce archiveHold) s t ∧ archiveHold ∈ t.shared.inForce ∧ archiveHold ∉ t.shared.holds.rows ∧
    archive ∉ t.shared.directory.mailboxes.rows ∧ archived ∉ t.shared.mail ∧ ¬Preserved archiveHold s.shared t.shared := by
  have hactions : ((runActions (retentionStep olderThan) (fun _ _ => True) retentionStart
      (.call .runDuePruning :: List.replicate 3 (.exec 0 laterDay) ++ holdArchive :: List.replicate 6 (.exec 1 laterDay))).bind
      fun s => (runActions (retentionStep olderThan) (WhileInForce archiveHold) s (List.replicate 3 (.exec 0 laterDay) ++
        .call (.removeMailbox 5 1) :: List.replicate 4 (.exec 2 laterDay))).map fun t =>
          (t.shared.inForce,t.shared.holds.rows,t.shared.directory.mailboxes.rows,t.shared.mail)) =
      some ([archiveHold],[],[lists],[listed]) := by decide +kernel
  obtain ⟨s,hs,hrest⟩ := Option.bind_eq_some_iff.mp hactions
  obtain ⟨t,ht,hends⟩ := Option.map_eq_some_iff.mp hrest
  obtain ⟨hforce,hends⟩ := Prod.mk.inj hends
  obtain ⟨hholds,hends⟩ := Prod.mk.inj hends
  obtain ⟨hboxes,hmail⟩ := Prod.mk.inj hends
  have hin : archiveHold ∈ t.shared.inForce := by simp [hforce]
  have hrow : archiveHold ∉ t.shared.holds.rows := by simp [hholds]
  refine ⟨s,t,Run.of_actions hs,Run.of_actions ht,hin,hrow,?_,?_,fun hpreserved => hrow (hpreserved.row hin)⟩
  · rw [hboxes]
    decide
  · rw [hmail]
    decide

end Runs
end JustMail.Retention
