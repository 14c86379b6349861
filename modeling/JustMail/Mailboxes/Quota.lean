import Mathlib.Algebra.BigOperators.Group.List.Basic
import Mathlib.Algebra.GroupWithZero.Nat
import JustMail.Accounts.Invites
import JustMail.Foundation.Tasks

/-! The ceilings on mailboxes: `storage_quota_mb` of an organisation and `max_mailboxes` of a domain.
Calls that create and resize mailboxes or move the ceiling run at the same time, one statement after
the other. -/
namespace JustMail.Mailboxes
open Foundation Postfix Accounts

section Rows

structure OrganizationRow where
  id : Nat
  storageQuotaMb : Option Nat

structure DomainRow where
  id : Nat
  orgId : Nat
  maxMailboxes : Option Nat

structure MailboxRow where
  id : Nat
  domainId : Nat
  localPart : LocalPart
  quotaMb : Nat

structure QuotaDb where
  organizations : Table OrganizationRow.id
  domains : Table DomainRow.id
  mailboxes : Table MailboxRow.id

namespace QuotaDb
variable (db : QuotaDb) (orgId domainId id : Nat)

/-- `FROM mailboxes m JOIN domains d ON d.id = m.domain_id WHERE d.org_id = $1`. -/
def inOrg (m : MailboxRow) : Bool := (db.domains.lookup m.domainId).any (·.orgId == orgId)

/-- `sum(m.quota_mb)` over the mailboxes of the organisation, with or without one of them. -/
def allocatedMb (excludeMailboxId : Option Nat) : Nat :=
  ((db.mailboxes.rows.filter fun m => db.inOrg orgId m && excludeMailboxId != some m.id).map (·.quotaMb)).sum

def mailboxCount : Nat := db.mailboxes.rows.countP (·.domainId == domainId)

def storageQuotaMb : Option Nat := (db.organizations.lookup orgId).bind (·.storageQuotaMb)

def maxMailboxes : Option Nat := (db.domains.lookup domainId).bind (·.maxMailboxes)

/-- `enforceLimits` throws: `if (cap && n >= cap)`. -/
def limitReached : Bool := (db.maxMailboxes domainId).any fun cap => cap != 0 && cap ≤ db.mailboxCount domainId

/-- `assertQuota` throws. -/
def quotaExceeded (addMb : Nat) (excludeMailboxId : Option Nat) : Bool :=
  (db.storageQuotaMb orgId).any (· < db.allocatedMb orgId excludeMailboxId + addMb)

/-- `setQuota` throws "Quota below current allocation". -/
def belowAllocation (storageQuotaMb : Option Nat) : Bool := storageQuotaMb.any (· < db.allocatedMb orgId none)

/-- `INSERT INTO mailboxes`; `none` where a constraint is violated. -/
def insertMailbox (m : MailboxRow) : Option QuotaDb :=
  if h : db.mailboxes.lookup m.id = none then
    if (db.domains.lookup m.domainId).isNone ∨
      db.mailboxes.rows.any (fun m' => m'.domainId == m.domainId && m'.localPart == m.localPart) then none
    else some { db with mailboxes := db.mailboxes.insert m h }
  else none

/-- `UPDATE mailboxes SET .. WHERE id = $1`. -/
def updateMailbox (quotaMb : Option Nat) : QuotaDb :=
  { db with mailboxes := db.mailboxes.updateWhere (·.id == id) (fun m => { m with quotaMb := quotaMb.getD m.quotaMb }) fun _ => rfl }

/-- `UPDATE organizations SET storage_quota_mb = $2 WHERE id = $1`. -/
def updateQuota (storageQuotaMb : Option Nat) : QuotaDb :=
  { db with organizations := db.organizations.updateWhere (·.id == orgId) (fun o =>
    { o with storageQuotaMb := storageQuotaMb }) fun _ => rfl }

end QuotaDb
end Rows

section Calls

structure CreateCall where
  userId : Nat
  orgId : Nat
  domainId : Nat
  localPart : LocalPart
  quotaMb : Nat
  deriving DecidableEq

inductive QuotaCall where
  | create (c : CreateCall)
  | update (userId orgId id : Nat) (quotaMb : Option Nat)
  | setQuota (userId orgId : Nat) (storageQuotaMb : Option Nat)

/-- The statements of the calls; checks that follow a statement belong to it. `returnMailbox` is the
`get` that `create` and `update` end with. -/
inductive QuotaInstr where
  | requireRole (orgId userId : Nat) (minRole : OrgRole)
  | selectDomain (orgId domainId : Nat)
  | selectMailbox (orgId id : Nat)
  | enforceLimits (domainId : Nat)
  | assertQuota (orgId addMb : Nat) (excludeMailboxId : Option Nat)
  | insertMailbox (c : CreateCall)
  | updateMailbox (orgId id : Nat) (quotaMb : Option Nat)
  | computeQuota (orgId : Nat) (storageQuotaMb : Option Nat)
  | updateQuota (orgId : Nat) (storageQuotaMb : Option Nat)
  | returnMailbox (orgId id userId : Nat)
  deriving DecidableEq

/-- What a statement meets: the roles at that time, and the id that an INSERT draws. -/
structure Moment where
  accounts : AccountDb
  now : Nat
  drawn : Nat

def Moment.row (env : Moment) (c : CreateCall) : MailboxRow := ⟨env.drawn,c.domainId,c.localPart,c.quotaMb⟩

/-- The password is hashed between `assertQuota` and the INSERT. -/
def createBody (c : CreateCall) : List QuotaInstr :=
  [.requireRole c.orgId c.userId .admin,.requireRole c.orgId c.userId .viewer,.selectDomain c.orgId c.domainId,
    .enforceLimits c.domainId,.assertQuota c.orgId c.quotaMb none,.insertMailbox c]

def updateBody (userId orgId id : Nat) (quotaMb : Option Nat) : List QuotaInstr :=
  [.requireRole orgId userId .admin,.requireRole orgId userId .viewer,.selectMailbox orgId id] ++
    (quotaMb.map fun mb => .assertQuota orgId mb (some id)).toList ++ [.updateMailbox orgId id quotaMb,.returnMailbox orgId id userId]

def setQuotaBody (userId orgId : Nat) (storageQuotaMb : Option Nat) : List QuotaInstr :=
  [.requireRole orgId userId .admin,.computeQuota orgId storageQuotaMb,.updateQuota orgId storageQuotaMb]

def QuotaCall.body : QuotaCall → List QuotaInstr
  | .create c => createBody c
  | .update userId orgId id quotaMb => updateBody userId orgId id quotaMb
  | .setQuota userId orgId storageQuotaMb => setQuotaBody userId orgId storageQuotaMb

variable (db : QuotaDb) (env : Moment)

def check (passes : Bool) : Option (QuotaDb × List QuotaInstr) := if passes then some (db,[]) else none

/-- `none` is an exception. -/
def QuotaInstr.run : QuotaInstr → Option (QuotaDb × List QuotaInstr)
  | .requireRole orgId userId minRole => check db (Accounts.requireRole env.accounts env.now orgId userId minRole).isOk
  | .selectDomain orgId domainId => check db ((db.domains.lookup domainId).any (·.orgId == orgId))
  | .selectMailbox orgId id => check db ((db.mailboxes.lookup id).any (db.inOrg orgId))
  | .enforceLimits domainId => check db (!db.limitReached domainId)
  | .assertQuota orgId addMb excludeMailboxId => check db (!db.quotaExceeded orgId addMb excludeMailboxId)
  | .insertMailbox c => (db.insertMailbox (env.row c)).map (·,[.returnMailbox c.orgId env.drawn c.userId])
  | .updateMailbox _ id quotaMb => some (db.updateMailbox id quotaMb,[])
  | .computeQuota orgId storageQuotaMb =>
    check db ((db.organizations.lookup orgId).isSome && !db.belowAllocation orgId storageQuotaMb)
  | .updateQuota orgId storageQuotaMb =>
      if (db.organizations.lookup orgId).isNone then none else some (db.updateQuota orgId storageQuotaMb,[])
  | .returnMailbox orgId id userId =>
    check db ((Accounts.requireRole env.accounts env.now orgId userId .viewer).isOk && (db.mailboxes.lookup id).any (db.inOrg orgId))

def execQuota (instr : QuotaInstr) : Option (QuotaDb × Outcome QuotaInstr) :=
  match instr.run db env with
  | some (db',more) => some (db',.next more)
  | none => some (db,.throw)

abbrev QuotaTasks := Tasks QuotaDb QuotaInstr

def quotaStep : QuotaTasks → TaskAction QuotaCall Moment → Option QuotaTasks :=
  taskStep (fun db instr env => execQuota db env instr) QuotaCall.body

end Calls

section Ceilings
variable (db : QuotaDb)

def StorageWithin (orgId : Nat) : Prop := ∀ cap ∈ db.storageQuotaMb orgId, db.allocatedMb orgId none ≤ cap

def MailboxesWithin (domainId : Nat) : Prop := ∀ cap ∈ db.maxMailboxes domainId, db.mailboxCount domainId ≤ cap

/-- The checks of the call pass when it writes, and the domain is not capped at no mailboxes at all. -/
def StillPasses : QuotaInstr → Prop
  | .insertMailbox c => db.limitReached c.domainId = false ∧
    db.maxMailboxes c.domainId ≠ some 0 ∧ db.quotaExceeded c.orgId c.quotaMb none = false
  | .updateMailbox orgId id (some quotaMb) => db.quotaExceeded orgId quotaMb (some id) = false
  | .updateQuota orgId storageQuotaMb => db.belowAllocation orgId storageQuotaMb = false
  | _ => True

instance : (instr : QuotaInstr) → Decidable (StillPasses db instr)
  | .insertMailbox _ => inferInstanceAs (Decidable (_ ∧ _ ∧ _))
  | .updateMailbox _ _ (some _) | .updateQuota _ _ => inferInstanceAs (Decidable (_ = false))
  | .updateMailbox _ _ none | .requireRole _ _ _ | .selectDomain _ _ | .selectMailbox _ _ | .enforceLimits _ | .assertQuota _ _ _
  | .computeQuota _ _ | .returnMailbox _ _ _ => .isTrue trivial

/-- Nothing that a call has checked has changed in a way that matters by the time it writes. -/
def Unraced (s : QuotaTasks) (a : TaskAction QuotaCall Moment) : Prop := ∀ instr ∈ s.instr a, StillPasses s.shared instr

instance (s : QuotaTasks) (a : TaskAction QuotaCall Moment) : Decidable (Unraced s a) :=
  inferInstanceAs (Decidable (∀ instr ∈ s.instr a, StillPasses s.shared instr))

end Ceilings

section Sums
variable {rows : List MailboxRow} {id : Nat}

def resize (id quotaMb : Nat) (m : MailboxRow) : MailboxRow := if m.id == id then { m with quotaMb := quotaMb } else m

theorem map_resize_of_notMem {quotaMb : Nat} (h : id ∉ rows.map (·.id)) : rows.map (resize id quotaMb) = rows := by
  refine (List.map_congr_left fun m hm => ?_).trans (List.map_id rows)
  have hne : m.id ≠ id := fun he => h (List.mem_map.mpr ⟨m,hm,he⟩)
  simp [resize,hne]

/-- A row that is not added up may have any quota. -/
theorem sum_resize_of_not (counts : Nat → Bool) (quotaMb : Nat) (h : ∀ m ∈ rows, m.id = id → counts m.domainId = false) :
    (((rows.map (resize id quotaMb)).filter fun m => counts m.domainId).map (·.quotaMb)).sum =
      ((rows.filter fun m => counts m.domainId).map (·.quotaMb)).sum := by
  induction rows with
  | nil => rfl
  | cons m rows ih =>
    have hrest := ih fun m' hm' => h m' (List.mem_cons_of_mem m hm')
    rw [List.map_cons]
    by_cases hid : m.id = id
    · have hcounts : counts m.domainId = false := h m List.mem_cons_self hid
      simpa [resize,hid,hcounts] using hrest
    · have hfirst : resize id quotaMb m = m := by simp [resize,hid]
      rw [hfirst]
      cases hcounts : counts m.domainId <;> simpa [hcounts] using hrest

/-- Of the rows that are added up, one has a new quota. -/
theorem sum_resize_le (counts : Nat → Bool) (quotaMb : Nat) (hids : (rows.map (·.id)).Nodup) :
    (((rows.map (resize id quotaMb)).filter fun m => counts m.domainId).map (·.quotaMb)).sum ≤
      ((rows.filter fun m => counts m.domainId && some id != some m.id).map (·.quotaMb)).sum + quotaMb := by
  induction rows with
  | nil => simp
  | cons m rows ih =>
    obtain ⟨hm,hrest⟩ := List.nodup_cons.mp hids
    by_cases hid : m.id = id
    · subst hid
      have hskip : rows.filter (fun m' => counts m'.domainId && some m.id != some m'.id) = rows.filter fun m' => counts m'.domainId := by
        refine List.filter_congr fun m' hm' => ?_
        have hne : m.id ≠ m'.id := fun he => hm (List.mem_map.mpr ⟨m',hm',he.symm⟩)
        simp [hne]
      rw [List.map_cons,map_resize_of_notMem hm]
      cases hcounts : counts m.domainId <;> simp [resize,hcounts,hskip,Nat.add_comm]
    · have hfirst : resize id quotaMb m = m := by simp [resize,hid]
      rw [List.map_cons,hfirst]
      cases hcounts : counts m.domainId
      · simpa [hcounts] using ih hrest
      · simpa [hcounts,Ne.symm hid,Nat.add_assoc] using ih hrest

end Sums

section Effects
variable {db db' : QuotaDb} {env : Moment} {instr : QuotaInstr} {outcome : Outcome QuotaInstr} {orgId domainId id : Nat}
variable {m : MailboxRow}

/-- What a statement that only reads has found. -/
def Found (db : QuotaDb) : QuotaInstr → Prop
  | .selectDomain orgId domainId => (db.domains.lookup domainId).any (·.orgId == orgId)
  | .selectMailbox orgId id => (db.mailboxes.lookup id).any (db.inOrg orgId)
  | _ => True

/-- What a statement can do. -/
inductive QuotaMoved (db : QuotaDb) (env : Moment) : QuotaInstr → QuotaDb → Outcome QuotaInstr → Prop where
  | refused (instr : QuotaInstr) : QuotaMoved db env instr db .throw
  | read (instr : QuotaInstr) : Found db instr → QuotaMoved db env instr db (.next [])
  | inserted (c : CreateCall) (db' : QuotaDb) : db.insertMailbox (env.row c) = some db' →
    QuotaMoved db env (.insertMailbox c) db' (.next [.returnMailbox c.orgId env.drawn c.userId])
  | updated (orgId id : Nat) (quotaMb : Option Nat) :
    QuotaMoved db env (.updateMailbox orgId id quotaMb) (db.updateMailbox id quotaMb) (.next [])
  | moved (orgId : Nat) (storageQuotaMb : Option Nat) :
    QuotaMoved db env (.updateQuota orgId storageQuotaMb) (db.updateQuota orgId storageQuotaMb) (.next [])

theorem quotaMoved_check {passes : Bool} (hfound : passes = true → Found db instr)
    (h : (match check db passes with | some (db',more) => some (db',Outcome.next more) | none => some (db,.throw)) = some (db',outcome)) :
    QuotaMoved db env instr db' outcome := by
  cases hpasses : passes with
  | false =>
    rw [check,hpasses] at h
    cases h
    exact .refused instr
  | true =>
    rw [check,hpasses] at h
    cases h
    exact .read instr (hfound hpasses)

theorem quotaMoved_of_exec (h : execQuota db env instr = some (db',outcome)) : QuotaMoved db env instr db' outcome := by
  rw [execQuota] at h
  cases instr with
  | insertMailbox c =>
    rw [QuotaInstr.run] at h
    cases hinsert : db.insertMailbox (env.row c) with
    | none =>
      rw [hinsert] at h
      cases h
      exact .refused _
    | some inserted =>
      rw [hinsert] at h
      obtain ⟨rfl,rfl⟩ := Prod.mk.inj (Option.some.inj h)
      exact .inserted c inserted hinsert
  | updateMailbox orgId id quotaMb =>
    cases h
    exact .updated orgId id quotaMb
  | updateQuota orgId storageQuotaMb =>
    rw [QuotaInstr.run] at h
    split at h
    · rename_i hrun
      split at hrun
      · simp at hrun
      · cases hrun
        cases h
        exact .moved orgId storageQuotaMb
    · cases h
      exact .refused _
  | selectDomain orgId domainId => exact quotaMoved_check id h
  | selectMailbox orgId id => exact quotaMoved_check (fun hfound => hfound) h
  | requireRole orgId userId minRole => exact quotaMoved_check (fun _ => trivial) h
  | enforceLimits domainId => exact quotaMoved_check (fun _ => trivial) h
  | assertQuota orgId addMb excludeMailboxId => exact quotaMoved_check (fun _ => trivial) h
  | computeQuota orgId storageQuotaMb => exact quotaMoved_check (fun _ => trivial) h
  | returnMailbox orgId id userId => exact quotaMoved_check (fun _ => trivial) h

theorem insertMailbox_spec (h : db.insertMailbox m = some db') :
    db'.organizations = db.organizations ∧ db'.domains = db.domains ∧ db.mailboxes.lookup m.id = none ∧
      db'.mailboxes.rows = db.mailboxes.rows ++ [m] := by
  rw [QuotaDb.insertMailbox] at h
  split at h
  · rename_i hfresh
    split at h
    · simp at h
    · cases h
      exact ⟨rfl,rfl,hfresh,rfl⟩
  · simp at h

theorem allocatedMb_insert (h : db.insertMailbox m = some db') (orgId : Nat) :
    db'.allocatedMb orgId none = db.allocatedMb orgId none + if db.inOrg orgId m then m.quotaMb else 0 := by
  obtain ⟨-,hdomains,-,hrows⟩ := insertMailbox_spec h
  have hin : db'.inOrg orgId = db.inOrg orgId := by
    funext m
    rw [QuotaDb.inOrg,QuotaDb.inOrg,hdomains]
  rw [QuotaDb.allocatedMb,QuotaDb.allocatedMb,hin,hrows,List.filter_append,List.map_append,List.sum_append]
  cases hm : db.inOrg orgId m <;> simp [hm]

theorem mailboxCount_insert (h : db.insertMailbox m = some db') (domainId : Nat) :
    db'.mailboxCount domainId = db.mailboxCount domainId + if m.domainId = domainId then 1 else 0 := by
  obtain ⟨-,-,-,hrows⟩ := insertMailbox_spec h
  rw [QuotaDb.mailboxCount,QuotaDb.mailboxCount,hrows,List.countP_append]
  by_cases hm : m.domainId = domainId <;> simp [hm]

theorem rows_updateMailbox (db : QuotaDb) (id quotaMb : Nat) :
    (db.updateMailbox id (some quotaMb)).mailboxes.rows = db.mailboxes.rows.map (resize id quotaMb) := rfl

theorem rows_updateMailbox_none (db : QuotaDb) (id : Nat) : (db.updateMailbox id none).mailboxes.rows = db.mailboxes.rows := by
  refine (List.map_congr_left fun m _ => ?_).trans (List.map_id _)
  exact ite_self m

theorem allocatedMb_none (db : QuotaDb) (orgId : Nat) :
    db.allocatedMb orgId none = ((db.mailboxes.rows.filter (db.inOrg orgId)).map (·.quotaMb)).sum := by
  have hall : (fun m => db.inOrg orgId m && (none : Option Nat) != some m.id) = db.inOrg orgId := by
    funext m
    exact Bool.and_true _
  rw [QuotaDb.allocatedMb,hall]

theorem allocatedMb_update_le (db : QuotaDb) (orgId id quotaMb : Nat) :
    (db.updateMailbox id (some quotaMb)).allocatedMb orgId none ≤ db.allocatedMb orgId (some id) + quotaMb := by
  rw [allocatedMb_none,rows_updateMailbox]
  exact sum_resize_le (fun d => (db.domains.lookup d).any (·.orgId == orgId)) quotaMb db.mailboxes.unique

/-- A mailbox of another organisation does not count. -/
theorem allocatedMb_update_of_not (quotaMb : Nat) (h : ∀ m ∈ db.mailboxes.rows, m.id = id → db.inOrg orgId m = false) :
    (db.updateMailbox id (some quotaMb)).allocatedMb orgId none = db.allocatedMb orgId none := by
  rw [allocatedMb_none,allocatedMb_none,rows_updateMailbox]
  exact sum_resize_of_not (fun d => (db.domains.lookup d).any (·.orgId == orgId)) quotaMb h

theorem mailboxCount_update (db : QuotaDb) (id domainId : Nat) (quotaMb : Option Nat) :
    (db.updateMailbox id quotaMb).mailboxCount domainId = db.mailboxCount domainId := by
  rw [QuotaDb.mailboxCount,QuotaDb.mailboxCount,QuotaDb.updateMailbox,Table.updateWhere,List.countP_map]
  refine List.countP_congr fun m _ => ?_
  rw [Function.comp_apply]
  split <;> rfl

theorem storageQuotaMb_update (db : QuotaDb) (orgId orgId' : Nat) (storageQuotaMb : Option Nat) :
    (db.updateQuota orgId storageQuotaMb).storageQuotaMb orgId' =
      if orgId' = orgId then (db.organizations.lookup orgId).bind fun _ => storageQuotaMb else db.storageQuotaMb orgId' := by
  rw [QuotaDb.storageQuotaMb,QuotaDb.updateQuota,Table.lookup_updateWhere]
  cases hlookup : db.organizations.lookup orgId' with
  | none =>
    split
    · rename_i heq
      rw [← heq,hlookup]
      rfl
    · rw [QuotaDb.storageQuotaMb,hlookup]
      rfl
  | some o =>
    have hid := Table.key_of_lookup hlookup
    by_cases heq : orgId' = orgId
    · subst heq
      simp [hid,hlookup]
    · simp [hid,heq,QuotaDb.storageQuotaMb,hlookup]

end Effects

section Steps
variable {db db' : QuotaDb} {env : Moment} {instr : QuotaInstr} {outcome : Outcome QuotaInstr} {orgId domainId : Nat} {s t : QuotaTasks}
  {a : TaskAction QuotaCall Moment}

/-- The statement that finds the row that another one writes to. -/
def QuotaInstr.needs : QuotaInstr → Option QuotaInstr
  | .insertMailbox c => some (.selectDomain c.orgId c.domainId)
  | .updateMailbox orgId id _ => some (.selectMailbox orgId id)
  | _ => none

/-- What a call writes to has been found in its organisation, or is looked for earlier: among `seen`,
or among the statements to come. -/
def Placed (db : QuotaDb) (seen : List QuotaInstr) : List QuotaInstr → Prop
  | [] => True
  | instr :: rest => (∀ check ∈ instr.needs, check ∈ seen ∨ Found db check) ∧ Placed db (instr :: seen) rest

theorem placed_body (db : QuotaDb) (call : QuotaCall) : Placed db [] call.body := by
  cases call with
  | create c => simp [QuotaCall.body,createBody,Placed,QuotaInstr.needs]
  | update userId orgId id quotaMb => cases quotaMb <;> simp [QuotaCall.body,updateBody,Placed,QuotaInstr.needs]
  | setQuota userId orgId storageQuotaMb => simp [QuotaCall.body,setQuotaBody,Placed,QuotaInstr.needs]

theorem Placed.mono {seen seen' task : List QuotaInstr} (h : Placed db seen task) (hfound : ∀ check, Found db check → Found db' check)
    (hseen : ∀ check ∈ seen, check ∈ seen' ∨ Found db' check) : Placed db' seen' task := by
  induction task generalizing seen seen' with
  | nil => trivial
  | cons instr rest ih =>
    refine ⟨fun check hcheck => ?_,ih h.2 fun check hcheck => ?_⟩
    · rcases h.1 check hcheck with hmem | hmem
      · exact hseen check hmem
      · exact .inr (hfound check hmem)
    · rcases List.mem_cons.mp hcheck with rfl | hcheck
      · exact .inl List.mem_cons_self
      · exact (hseen check hcheck).imp_left (List.mem_cons_of_mem _)

theorem found_mailbox {id : Nat} :
    Found db (.selectMailbox orgId id) ↔ ∃ m ∈ db.mailboxes.rows, m.id = id ∧ db.inOrg orgId m = true := by
  rw [Found,Option.any_eq_true]
  simp only [Table.lookup_eq_some,and_assoc]

theorem Found.kept {check : QuotaInstr} (hfound : Found db check) (hdomains : db'.domains = db.domains)
    (hmailboxes : ∀ m ∈ db.mailboxes.rows, ∃ m' ∈ db'.mailboxes.rows, m'.id = m.id ∧ m'.domainId = m.domainId) : Found db' check := by
  cases check with
  | selectDomain orgId domainId => rwa [Found,hdomains]
  | selectMailbox orgId id =>
    obtain ⟨m,hm,hid,hin⟩ := found_mailbox.mp hfound
    obtain ⟨m',hm',hid',hdomain⟩ := hmailboxes m hm
    refine found_mailbox.mpr ⟨m',hm',hid'.trans hid,?_⟩
    rwa [QuotaDb.inOrg,hdomain,hdomains]
  | _ => trivial

theorem QuotaMoved.found {check : QuotaInstr} (h : QuotaMoved db env instr db' outcome) (hfound : Found db check) : Found db' check := by
  cases h with
  | refused => exact hfound
  | read => exact hfound
  | moved => exact hfound.kept rfl fun m hm => ⟨m,hm,rfl,rfl⟩
  | inserted c db' hinsert =>
    obtain ⟨-,hdomains,-,hrows⟩ := insertMailbox_spec hinsert
    refine hfound.kept hdomains fun m hm => ⟨m,?_,rfl,rfl⟩
    rw [hrows]
    exact List.mem_append_left _ hm
  | updated orgId id quotaMb =>
    refine hfound.kept rfl fun m hm => ⟨_,List.mem_map_of_mem hm,?_⟩
    split <;> exact ⟨rfl,rfl⟩

theorem Placed.kept {task : List QuotaInstr} (h : Placed db [] task) (hmoved : QuotaMoved db env instr db' outcome) : Placed db' [] task :=
  h.mono (fun _ => hmoved.found) fun _ hcheck => absurd hcheck List.not_mem_nil

/-- A call that goes on has found what it has looked for. -/
theorem QuotaMoved.placed {rest : List QuotaInstr} (h : QuotaMoved db env instr db' outcome) (hplaced : Placed db [] (instr :: rest)) :
    Placed db' [] (outcome.continuation rest) := by
  have hrest : Found db instr → Placed db' [] rest := by
    intro hfound
    refine hplaced.2.mono (fun _ => h.found) fun check hcheck => .inr ?_
    rw [List.mem_singleton.mp hcheck]
    exact h.found hfound
  cases h with
  | refused => trivial
  | read _ hfound => exact hrest hfound
  | moved => exact hrest trivial
  | updated => exact hrest trivial
  | inserted c db' hinsert =>
    refine ⟨fun _ hcheck => by simp [QuotaInstr.needs] at hcheck,?_⟩
    exact (hrest trivial).mono (fun _ hfound => hfound) fun _ hcheck => absurd hcheck List.not_mem_nil

theorem storageWithin_of_le (h : StorageWithin db orgId) (hcap : db'.storageQuotaMb orgId = db.storageQuotaMb orgId)
    (hle : db'.allocatedMb orgId none ≤ db.allocatedMb orgId none) : StorageWithin db' orgId :=
  fun cap hmem => hle.trans (h cap (hcap ▸ hmem))

theorem room_of_check {addMb cap : Nat} {excludeMailboxId : Option Nat} (h : db.quotaExceeded orgId addMb excludeMailboxId = false)
    (hcap : cap ∈ db.storageQuotaMb orgId) : db.allocatedMb orgId excludeMailboxId + addMb ≤ cap := by
  rw [QuotaDb.quotaExceeded,Option.mem_def.mp hcap] at h
  simpa using h

/-- A domain, or a mailbox, has one organisation. -/
theorem inOrg_unique {m : MailboxRow} {orgId' : Nat} (h : db.inOrg orgId m = true) (h' : db.inOrg orgId' m = true) : orgId = orgId' := by
  obtain ⟨d,hd,horg⟩ := (Option.any_eq_true _ _).mp h
  obtain ⟨d',hd',horg'⟩ := (Option.any_eq_true _ _).mp h'
  obtain rfl := Option.some.inj (hd.symm.trans hd')
  exact (beq_iff_eq.mp horg).symm.trans (beq_iff_eq.mp horg')

theorem storageWithin_moved (h : StorageWithin db orgId) (hmoved : QuotaMoved db env instr db' outcome) (hpasses : StillPasses db instr)
    (hplaced : ∀ check ∈ instr.needs, Found db check) : StorageWithin db' orgId := by
  cases hmoved with
  | refused => exact h
  | read => exact h
  | inserted c db' hinsert =>
    obtain ⟨horgs,-,-,-⟩ := insertMailbox_spec hinsert
    intro cap hcap
    rw [QuotaDb.storageQuotaMb,horgs] at hcap
    rw [allocatedMb_insert hinsert]
    split
    · rename_i hin
      have hfound : db.inOrg c.orgId (env.row c) = true := hplaced _ rfl
      obtain rfl := inOrg_unique hin hfound
      exact room_of_check hpasses.2.2 hcap
    · exact h cap hcap
  | updated orgId' id quotaMb =>
    cases quotaMb with
    | none => exact storageWithin_of_le h rfl (by rw [allocatedMb_none,allocatedMb_none,rows_updateMailbox_none]; exact le_rfl)
    | some quotaMb =>
      obtain ⟨m,hm,hid,hin⟩ := found_mailbox.mp (hplaced _ rfl)
      by_cases horg : orgId = orgId'
      · subst horg
        exact fun cap hcap => (allocatedMb_update_le db orgId id quotaMb).trans (room_of_check hpasses hcap)
      · refine storageWithin_of_le h rfl (allocatedMb_update_of_not quotaMb fun m' hm' hid' => ?_).le
        obtain rfl := Table.eq_of_key hm' hm (hid'.trans hid.symm)
        exact Bool.eq_false_iff.mpr fun hin' => horg (inOrg_unique hin' hin)
  | moved orgId' storageQuotaMb =>
    intro cap hcap
    rw [storageQuotaMb_update] at hcap
    split at hcap
    · rename_i horg
      subst horg
      obtain ⟨-,-,rfl⟩ := Option.bind_eq_some_iff.mp hcap
      have hbelow : db.belowAllocation orgId (some cap) = false := hpasses
      have hle : db.allocatedMb orgId none ≤ cap := by simpa [QuotaDb.belowAllocation] using hbelow
      exact hle
    · exact h cap hcap

theorem mailboxesWithin_moved (h : MailboxesWithin db domainId) (hmoved : QuotaMoved db env instr db' outcome)
    (hpasses : StillPasses db instr) :
    MailboxesWithin db' domainId := by
  cases hmoved with
  | refused => exact h
  | read => exact h
  | moved => exact h
  | updated orgId id quotaMb =>
    intro cap hcap
    rw [mailboxCount_update]
    exact h cap hcap
  | inserted c db' hinsert =>
    obtain ⟨-,hdomains,-,-⟩ := insertMailbox_spec hinsert
    intro cap hcap
    rw [QuotaDb.maxMailboxes,hdomains] at hcap
    rw [mailboxCount_insert hinsert]
    split
    · rename_i hdomain
      -- A cap that is not zero has been compared with the count.
      obtain ⟨hlimit,hzero,-⟩ := hpasses
      obtain rfl : c.domainId = domainId := hdomain
      have hcap' : db.maxMailboxes c.domainId = some cap := hcap
      rw [QuotaDb.limitReached,hcap'] at hlimit
      rw [hcap'] at hzero
      have hpos : cap ≠ 0 := fun h0 => hzero (by rw [h0])
      have hlt : db.mailboxCount c.domainId < cap := by simpa [hpos] using hlimit
      exact hlt
    · exact h cap hcap

/-- Each call has found what it writes to in its organisation. -/
def QuotaInv (s : QuotaTasks) : Prop := ∀ task ∈ s.running, Placed s.shared [] task

theorem quotaInv_step (h : QuotaInv s) (hstep : quotaStep s a = some t) : QuotaInv t := by
  obtain ⟨call,-,rfl⟩ | ⟨i,env,instr,rest,db',outcome,-,htask,hexec,rfl⟩ := taskStep_cases hstep
  · intro task htask
    rcases List.mem_append.mp htask with htask | htask
    · exact h task htask
    · rw [List.mem_singleton.mp htask]
      exact placed_body s.shared call
  · have hmoved := quotaMoved_of_exec hexec
    exact Tasks.forall_set (fun task htask => (h task htask).kept hmoved) (hmoved.placed (h _ (List.mem_of_getElem? htask)))

theorem placed_head {i : Nat} {rest : List QuotaInstr} (h : QuotaInv s) (htask : s.running[i]? = some (instr :: rest)) :
    ∀ check ∈ instr.needs, Found s.shared check := by
  intro check hcheck
  have hhead : Placed s.shared [] (instr :: rest) := h _ (List.mem_of_getElem? htask)
  exact (hhead.1 check hcheck).resolve_left List.not_mem_nil

theorem storageWithin_step (hinv : QuotaInv s) (h : StorageWithin s.shared orgId) (hunraced : Unraced s a)
    (hstep : quotaStep s a = some t) :
    StorageWithin t.shared orgId := by
  obtain ⟨call,-,rfl⟩ | ⟨i,env,instr,rest,db',outcome,rfl,htask,hexec,rfl⟩ := taskStep_cases hstep
  · exact h
  · exact storageWithin_moved h (quotaMoved_of_exec hexec) (hunraced instr (Tasks.instr_exec htask)) (placed_head hinv htask)

theorem mailboxesWithin_step (h : MailboxesWithin s.shared domainId) (hunraced : Unraced s a) (hstep : quotaStep s a = some t) :
    MailboxesWithin t.shared domainId := by
  obtain ⟨call,-,rfl⟩ | ⟨i,env,instr,rest,db',outcome,rfl,htask,hexec,rfl⟩ := taskStep_cases hstep
  · exact h
  · exact mailboxesWithin_moved h (quotaMoved_of_exec hexec) (hunraced instr (Tasks.instr_exec htask))

/-- In every run in which the checks of the calls still pass when they write, the ceilings hold: that of
each organisation, and that of each domain with no more mailboxes than it may have at the start. -/
theorem ceilings_hold {start : QuotaDb} (hrun : Run quotaStep Unraced ⟨start,[]⟩ t) :
    (∀ orgId, StorageWithin start orgId → StorageWithin t.shared orgId) ∧
    ∀ domainId, MailboxesWithin start domainId → MailboxesWithin t.shared domainId := by
  have hstart : QuotaInv ⟨start,[]⟩ := fun _ htask => absurd htask List.not_mem_nil
  constructor
  · intro orgId h
    have hkept : ∀ s a t, QuotaInv s ∧ StorageWithin s.shared orgId → Unraced s a → quotaStep s a = some t →
        QuotaInv t ∧ StorageWithin t.shared orgId :=
      fun s a t hs ha hstep => ⟨quotaInv_step hs.1 hstep,storageWithin_step hs.1 hs.2 ha hstep⟩
    exact (hrun.invariant hkept ⟨hstart,h⟩).2
  · intro domainId h
    have hkept : ∀ s a t, MailboxesWithin s.shared domainId → Unraced s a → quotaStep s a = some t → MailboxesWithin t.shared domainId :=
      fun s a t hs ha hstep => mailboxesWithin_step hs ha hstep
    have hend := hrun.invariant hkept h
    exact hend

/-- Organisation 1 has 100 MB for its mailboxes. Its domain 1 takes one of them, domain 2 none. -/
def tightDb : QuotaDb where
  organizations := ⟨[⟨1,some 100⟩],by decide⟩
  domains := ⟨[⟨1,1,some 1⟩,⟨2,1,some 0⟩],by decide⟩
  mailboxes := .empty

def firstMailbox : CreateCall := ⟨1,1,1,⟨js "ada",by decide,by decide⟩,80⟩
def secondMailbox : CreateCall := ⟨1,1,1,⟨js "bob",by decide,by decide⟩,70⟩
def uncappedMailbox : CreateCall := ⟨1,1,2,⟨js "eve",by decide,by decide⟩,10⟩

/-- The next statements of a call of the admin. -/
def execs (i n drawn : Nat) : List (TaskAction QuotaCall Moment) := List.replicate n (.exec i ⟨twoOrgsDb,0,drawn⟩)

def oneAfterTheOther : List (TaskAction QuotaCall Moment) :=
  [.call (.create firstMailbox),.call (.create secondMailbox)] ++ execs 0 7 1 ++ execs 1 4 2

/-- Both calls check before either of them writes. -/
def racing : List (TaskAction QuotaCall Moment) :=
  [.call (.create firstMailbox),.call (.create secondMailbox)] ++ execs 0 5 1 ++ execs 1 5 2 ++ execs 0 2 1 ++ execs 1 2 2

/-- What is left of some steps: whether calls are in flight, and the ceilings of organisation 1 and its
domains, each with what is used of it. -/
structure Usage where
  idle : Bool
  storage : Option Nat × Nat
  firstDomain : Option Nat × Nat
  secondDomain : Option Nat × Nat
  deriving DecidableEq

def usage (s : QuotaTasks) : Usage :=
  ⟨s.isIdle,(s.shared.storageQuotaMb 1,s.shared.allocatedMb 1 none),(s.shared.maxMailboxes 1,s.shared.mailboxCount 1),
    (s.shared.maxMailboxes 2,s.shared.mailboxCount 2)⟩

def usageAfter (allowed : QuotaTasks → TaskAction QuotaCall Moment → Prop) [∀ s a, Decidable (allowed s a)]
    (actions : List (TaskAction QuotaCall Moment)) : Option Usage := (runActions quotaStep allowed ⟨tightDb,[]⟩ actions).map usage

theorem tightDb_storage : StorageWithin tightDb 1 := fun cap _ => Nat.zero_le cap

theorem tightDb_mailboxes (domainId : Nat) : MailboxesWithin tightDb domainId := fun cap _ => Nat.zero_le cap

/-- The second mailbox is refused. -/
theorem second_mailbox_refused : ∃ t, Run quotaStep Unraced ⟨tightDb,[]⟩ t ∧ usage t = ⟨true,(some 100,80),(some 1,1),(some 0,0)⟩ ∧
    StorageWithin t.shared 1 ∧ MailboxesWithin t.shared 1 := by
  have hactions : usageAfter Unraced oneAfterTheOther = some ⟨true,(some 100,80),(some 1,1),(some 0,0)⟩ := by decide +kernel
  obtain ⟨t,ht,husage⟩ := Option.map_eq_some_iff.mp hactions
  have hrun : Run quotaStep Unraced ⟨tightDb,[]⟩ t := .of_actions ht
  have hhold := ceilings_hold hrun
  exact ⟨t,hrun,husage,hhold.1 1 tightDb_storage,hhold.2 1 (tightDb_mailboxes 1)⟩

/-- Two mailboxes of together 150 MB in a domain that takes one, and one in a domain that takes none. -/
theorem ceilings_broken :
    (∃ t, Run quotaStep (fun _ _ => True) ⟨tightDb,[]⟩ t ∧ t.Idle ∧ StorageWithin tightDb 1 ∧ MailboxesWithin tightDb 1 ∧
      ¬StorageWithin t.shared 1 ∧ ¬MailboxesWithin t.shared 1) ∧
    ∃ t, Run quotaStep (fun _ _ => True) ⟨tightDb,[]⟩ t ∧ t.Idle ∧ MailboxesWithin tightDb 2 ∧ ¬MailboxesWithin t.shared 2 := by
  constructor
  · have hactions : usageAfter (fun _ _ => True) racing = some ⟨true,(some 100,150),(some 1,2),(some 0,0)⟩ := by decide +kernel
    obtain ⟨t,ht,husage⟩ := Option.map_eq_some_iff.mp hactions
    simp only [usage,Usage.mk.injEq,Prod.mk.injEq] at husage
    obtain ⟨hidle,⟨hquota,hallocated⟩,⟨hmax,hcount⟩,-⟩ := husage
    refine ⟨t,.of_actions ht,Tasks.idle_of_isIdle hidle,tightDb_storage,tightDb_mailboxes 1,fun h => ?_,fun h => ?_⟩
    · have hle := h 100 hquota
      omega
    · have hle := h 1 hmax
      omega
  · have hactions : usageAfter (fun _ _ => True) (.call (.create uncappedMailbox) :: execs 0 7 1) =
        some ⟨true,(some 100,10),(some 1,0),(some 0,1)⟩ := by decide +kernel
    obtain ⟨t,ht,husage⟩ := Option.map_eq_some_iff.mp hactions
    simp only [usage,Usage.mk.injEq,Prod.mk.injEq] at husage
    obtain ⟨hidle,-,-,hmax,hcount⟩ := husage
    refine ⟨t,.of_actions ht,Tasks.idle_of_isIdle hidle,tightDb_mailboxes 2,fun h => ?_⟩
    have hle := h 0 hmax
    omega

end Steps
end JustMail.Mailboxes
