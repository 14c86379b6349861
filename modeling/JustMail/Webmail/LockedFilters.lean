import JustMail.Webmail.SieveReconcile

/-! Changes to the rules of a locked mailbox: the row is written before `sync` looks for the password. The
rows carry their `updated_at` here, and a call the rule that it returns. -/
namespace JustMail.Webmail
open Foundation

section Model

/-- A row of `sieve_rules` with its `updated_at`, in microseconds. -/
structure StampedRow where
  row : SieveRuleRow
  updatedAt : Nat

abbrev StampedTable := Table fun r : StampedRow => r.row.id

def StampedTable.plain (table : StampedTable) : RuleTable where
  rows := table.rows.map (·.row)
  unique := by
    rw [List.map_map]
    exact table.unique

/-- `now()` of a statement is `stamp`. The rule is the one that RETURNING gives. -/
def stampedWrite (now stamp mailboxId : Nat) (table : StampedTable) : RuleWrite → Option (StampedTable × Option SieveRuleRow)
  | .create id input =>
    let row := newRow now table.plain mailboxId id input
    if h : table.lookup row.id = none then some (table.insert ⟨row,stamp⟩ h,some row) else none
  | .update id input =>
    (table.rows.find? (isRule mailboxId id ·.row)).map fun r =>
      (table.updateWhere (isRule mailboxId id ·.row) (fun r => ⟨editRow input r.row,stamp⟩) fun _ => rfl,some (editRow input r.row))
  | .delete id =>
    if table.rows.any (isRule mailboxId id ·.row) then some (table.deleteWhere (isRule mailboxId id ·.row),none) else none

structure FilterState where
  now : Nat
  table : StampedTable
  server : SieveServer
  lease : Option Nat
  live : List CompilableRule

def FilterState.plain (s : FilterState) : MailboxState := ⟨s.now,s.table.plain,s.server,s.lease,s.live⟩

def FilterState.wait (s : FilterState) (seconds : Nat) : FilterState := { s with now := s.now + seconds }

variable (redis : Bool) (mailboxId stamp : Nat)

/-- `sync`, which reads the rows and leaves them. -/
def FilterState.sync (s : FilterState) (unlocked : Bool) (outcome : PushOutcome) : Except SieveFailure Unit × FilterState :=
  let (answer,m) := Webmail.sync redis mailboxId unlocked outcome s.plain
  (answer,{ s with server := m.server, lease := m.lease, live := m.live })

/-- `createRule`, `updateRule` and `deleteRule`. -/
def filterCall (w : RuleWrite) (unlocked : Bool) (outcome : PushOutcome) (s : FilterState) :
    Except SieveFailure (Option SieveRuleRow) × FilterState :=
  match stampedWrite s.now stamp mailboxId s.table w with
  | none => (.error .notFound,s)
  | some (table,rule) =>
    let (answer,s') := { s with table }.sync redis mailboxId unlocked outcome
    (answer.map fun _ => rule,s')

end Model

section Plain
variable {table : StampedTable}

theorem any_plain (p : SieveRuleRow → Bool) : table.plain.rows.any p = table.rows.any (p ·.row) := List.any_map

theorem lookup_plain (id : Nat) : table.plain.lookup id = (table.lookup id).map (·.row) := by
  rw [Table.lookup,Table.lookup,StampedTable.plain,List.find?_map]
  rfl

/-- Without the stamps these are the writes of the plain rows. -/
theorem plain_stampedWrite (now stamp mailboxId : Nat) (table : StampedTable) (w : RuleWrite) :
    (stampedWrite now stamp mailboxId table w).map (·.1.plain) = applyWrite now mailboxId table.plain w := by
  cases w with
  | create id input =>
    simp only [stampedWrite,applyWrite]
    by_cases h : table.lookup (newRow now table.plain mailboxId id input).id = none
    · have hplain : table.plain.lookup (newRow now table.plain mailboxId id input).id = none := by rw [lookup_plain,h]; rfl
      rw [dif_pos h,dif_pos hplain]
      simp [StampedTable.plain,Table.insert]
    · have hplain : ¬table.plain.lookup (newRow now table.plain mailboxId id input).id = none := by
        rw [lookup_plain,Option.map_eq_none_iff]
        exact h
      rw [dif_neg h,dif_neg hplain]
      rfl
  | update id input =>
    simp only [stampedWrite,applyWrite,any_plain]
    cases hfind : table.rows.find? (isRule mailboxId id ·.row) with
    | none =>
      have hno : ¬table.rows.any (isRule mailboxId id ·.row) = true := by
        simpa using hfind
      rw [if_neg hno]
      rfl
    | some r =>
      have hyes : table.rows.any (isRule mailboxId id ·.row) = true :=
        List.any_eq_true.mpr ⟨r,List.mem_of_find?_eq_some hfind,
          List.find?_some (p := fun r : StampedRow => isRule mailboxId id r.row) hfind⟩
      rw [if_pos hyes]
      simp only [Option.map_some,Option.some.injEq,StampedTable.plain,Table.updateWhere,List.map_map,Table.mk.injEq]
      refine List.map_congr_left fun r' _ => ?_
      dsimp only [Function.comp_apply]
      split <;> rfl
  | delete id =>
    simp only [stampedWrite,applyWrite,any_plain]
    split
    · simp [StampedTable.plain,Table.deleteWhere,List.filter_map,Function.comp_def]
    · rfl

theorem filterCall_simulates (redis : Bool) (mailboxId stamp : Nat) (w : RuleWrite) (unlocked : Bool)
    (outcome : PushOutcome) (s : FilterState) :
    ((filterCall redis mailboxId stamp w unlocked outcome s).1.map fun _ => ()) =
    (changeRule redis mailboxId w unlocked outcome s.plain).1 ∧
    (filterCall redis mailboxId stamp w unlocked outcome s).2.plain = (changeRule redis mailboxId w unlocked outcome s.plain).2 := by
  have hplain := plain_stampedWrite s.now stamp mailboxId s.table w
  unfold filterCall changeRule
  cases hwrite : stampedWrite s.now stamp mailboxId s.table w with
  | none =>
    rw [hwrite] at hplain
    rw [show applyWrite s.plain.now mailboxId s.plain.table w = none from hplain.symm]
    exact ⟨rfl,rfl⟩
  | some written =>
    obtain ⟨table,rule⟩ := written
    rw [hwrite] at hplain
    rw [show applyWrite s.plain.now mailboxId s.plain.table w = some table.plain from hplain.symm]
    simp only [FilterState.sync,FilterState.plain,Webmail.sync]
    cases unlocked with
    | false => exact ⟨rfl,rfl⟩
    | true =>
      by_cases hok : outcome = .ok
      · subst hok
        exact ⟨rfl,rfl⟩
      · simp only [if_true,if_neg hok]
        exact ⟨rfl,rfl⟩

end Plain

section Law
variable {redis : Bool} {mailboxId stamp : Nat} {w : RuleWrite} {unlocked : Bool} {outcome : PushOutcome} {s : FilterState}

/-- The same request, made again. A rule that is created again gets an id of its own. -/
def RuleWrite.Repeats : RuleWrite → RuleWrite → Prop
  | .create _ input,.create _ input' => input' = input
  | w,w' => w' = w

/-- `s'` is what a call has left behind: the rows of the mailbox are those of `s`, and the call made again after
unlocking does what it would have done at first. -/
structure Effectless (redis : Bool) (mailboxId : Nat) (w : RuleWrite) (s s' : FilterState) : Prop where
  rows : ∀ r : StampedRow, r.row.mailboxId = mailboxId → (r ∈ s'.table.rows ↔ r ∈ s.table.rows)
  retry : ∀ w' stamp' seconds, RuleWrite.Repeats w w' →
    filterCall redis mailboxId stamp' w' true .ok (s'.wait seconds) = filterCall redis mailboxId stamp' w' true .ok (s.wait seconds)

/-- An update to what the rule reads already, in the microsecond in which it was written last. -/
def ChangesNothing (mailboxId stamp : Nat) (table : StampedTable) : RuleWrite → Prop
  | .update id input => ∀ r ∈ table.rows, isRule mailboxId id r.row = true →
    r.row.enabled = input.enabled ∧ r.row.rule = input.rule ∧ r.row.scriptSource = compileRule input.rule ∧ r.updatedAt = stamp
  | .create _ _ | .delete _ => False

/-- What a locked call leaves: the write, and nothing else. -/
theorem filterCall_locked (h : (filterCall redis mailboxId stamp w unlocked outcome s).1 = .error .locked) :
    ∃ table rule, stampedWrite s.now stamp mailboxId s.table w = some (table,rule) ∧
      (filterCall redis mailboxId stamp w unlocked outcome s).2 = { s with table } := by
  unfold filterCall at *
  cases hwrite : stampedWrite s.now stamp mailboxId s.table w with
  | none =>
    rw [hwrite] at h
    cases h
  | some written =>
    obtain ⟨table,rule⟩ := written
    rw [hwrite] at h
    refine ⟨table,rule,rfl,?_⟩
    simp only [FilterState.sync,Webmail.sync] at *
    cases unlocked with
    | false => rfl
    | true =>
      by_cases hok : outcome = .ok
      · subst hok
        cases h
      · simp only [if_true,if_neg hok] at h
        cases h

theorem edited_eq_iff {input : SieveRuleRequest} {r : StampedRow} : (⟨editRow input r.row,stamp⟩ : StampedRow) = r ↔
    r.row.enabled = input.enabled ∧ r.row.rule = input.rule ∧ r.row.scriptSource = compileRule input.rule ∧ r.updatedAt = stamp := by
  obtain ⟨row,updatedAt⟩ := r
  obtain ⟨rid,mailbox,priority,createdAt,enabled,rule,scriptSource⟩ := row
  simp only [editRow,StampedRow.mk.injEq,SieveRuleRow.mk.injEq,true_and,and_assoc]
  constructor
  · rintro ⟨rfl,rfl,rfl,rfl⟩
    exact ⟨rfl,rfl,rfl,rfl⟩
  · rintro ⟨rfl,rfl,rfl,rfl⟩
    exact ⟨rfl,rfl,rfl,rfl⟩

theorem stampedWrite_of_changesNothing {now : Nat} {table table' : StampedTable} {rule : Option SieveRuleRow}
    (h : stampedWrite now stamp mailboxId table w = some (table',rule)) (hnothing : ChangesNothing mailboxId stamp table w) :
    table' = table := by
  cases w with
  | create id input => exact hnothing.elim
  | update id input =>
    obtain ⟨r,-,hr⟩ := Option.map_eq_some_iff.mp h
    cases hr
    have hsame : (table.rows.map fun r : StampedRow => if isRule mailboxId id r.row then ⟨editRow input r.row,stamp⟩
      else r) = table.rows := by
      refine (List.map_congr_left fun r hr => ?_).trans (List.map_id table.rows)
      split
      · rename_i hrule
        exact edited_eq_iff.mpr (hnothing r hr hrule)
      · rfl
    obtain ⟨rows,unique⟩ := table
    simp only [Table.updateWhere,Table.mk.injEq]
    exact hsame
  | delete id => exact hnothing.elim

theorem mailboxId_of_isRule {id : Nat} {r : SieveRuleRow} (h : isRule mailboxId id r = true) : r.mailboxId = mailboxId := by
  rw [isRule,Bool.and_eq_true,beq_iff_eq,beq_iff_eq] at h
  exact h.2

/-- A write that leaves the rows of the mailbox is an update that changes nothing. -/
theorem changesNothing_of_rows {now : Nat} {table table' : StampedTable} {rule : Option SieveRuleRow}
    (h : stampedWrite now stamp mailboxId table w = some (table',rule))
    (hsame : ∀ r : StampedRow, r.row.mailboxId = mailboxId → (r ∈ table'.rows ↔ r ∈ table.rows)) :
    ChangesNothing mailboxId stamp table w := by
  cases w with
  | create id input =>
    simp only [stampedWrite] at h
    split at h
    · rename_i hfresh
      cases h
      have hmem := (hsame ⟨newRow now table.plain mailboxId id input,stamp⟩ rfl).mp (List.mem_append_right _ List.mem_cons_self)
      exact Table.lookup_eq_none.mp hfresh _ hmem rfl
    · cases h
  | update id input =>
    obtain ⟨r,-,hr⟩ := Option.map_eq_some_iff.mp h
    cases hr
    intro r hr hrule
    have hedited : (⟨editRow input r.row,stamp⟩ : StampedRow) ∈ table.rows := by
      refine (hsame ⟨editRow input r.row,stamp⟩ (mailboxId_of_isRule hrule)).mp (List.mem_map.mpr ⟨r,hr,?_⟩)
      dsimp only
      rw [if_pos hrule]
    exact edited_eq_iff.mp (Table.eq_of_key hedited hr rfl)
  | delete id =>
    simp only [stampedWrite] at h
    split at h
    · rename_i hany
      cases h
      obtain ⟨r,hr,hrule⟩ := List.any_eq_true.mp hany
      have hgone := (List.mem_filter.mp ((hsame r (mailboxId_of_isRule hrule)).mpr hr)).2
      dsimp only at hgone
      rw [hrule] at hgone
      cases hgone
    · cases h

theorem locked_effectless_iff (h : (filterCall redis mailboxId stamp w unlocked outcome s).1 = .error .locked) :
    Effectless redis mailboxId w s (filterCall redis mailboxId stamp w unlocked outcome s).2 ↔
    ChangesNothing mailboxId stamp s.table w := by
  obtain ⟨table,rule,hwrite,hstate⟩ := filterCall_locked h
  rw [hstate]
  refine ⟨fun heffect => changesNothing_of_rows hwrite heffect.rows,fun hnothing => ?_⟩
  obtain rfl := stampedWrite_of_changesNothing hwrite hnothing
  exact ⟨fun _ _ => Iff.rfl,fun _ _ _ _ => rfl⟩

def emptyFilters : FilterState := ⟨0,Table.empty,⟨none,false⟩,none,[]⟩

def plainKeep : SieveRuleRequest := ⟨⟨js "A",.all,[],[⟨.keep,none⟩]⟩,true⟩

/-- The rule as it is in a mailbox that has been locked since. -/
def keptFilters : FilterState := (filterCall true 7 100 (.create 1 plainKeep) true .ok emptyFilters).2

/-- The update to the same text, in the same microsecond. -/
theorem same_update_effectless :
    Effectless true 7 (.update 1 plainKeep) keptFilters (filterCall true 7 100 (.update 1 plainKeep) false .ok keptFilters).2 := by
  have hlocked : (filterCall true 7 100 (.update 1 plainKeep) false .ok keptFilters).1 = .error .locked := by rfl
  refine (locked_effectless_iff hlocked).mpr ?_
  intro r hr _
  obtain rfl : r = ⟨newRow 0 (StampedTable.plain Table.empty) 7 1 plainKeep,100⟩ := List.mem_singleton.mp hr
  exact ⟨rfl,rfl,rfl,rfl⟩

/-- The rule of a call that is answered with 403 is there, and after the retry it is there twice. -/
theorem locked_create_kept : (filterCall true 7 100 (.create 1 plainKeep) false .ok emptyFilters).1 = .error .locked ∧
    ((filterCall true 7 100 (.create 1 plainKeep) false .ok emptyFilters).2.table.rows.map (·.row.rule)) = [plainKeep.rule] ∧
    ((filterCall true 7 200 (.create 2 plainKeep) true .ok
      (filterCall true 7 100 (.create 1 plainKeep) false .ok emptyFilters).2).2.table.rows.map
      (·.row.rule)) = [plainKeep.rule,plainKeep.rule] ∧
    ¬Effectless true 7 (.create 1 plainKeep) emptyFilters (filterCall true 7 100 (.create 1 plainKeep) false .ok emptyFilters).2 := by
  refine ⟨rfl,rfl,rfl,fun h => ?_⟩
  have hmem := (h.rows ⟨newRow 0 (StampedTable.plain Table.empty) 7 1 plainKeep,100⟩ rfl).mp List.mem_cons_self
  cases hmem

end Law
end JustMail.Webmail
