import JustMail.Webmail.SieveService
import JustMail.Foundation.Runs
import JustMail.Foundation.SieveGrammar

/-! Calls on the rules of one mailbox, one after the other, where any upload may fail:
what `reconcile` makes of the drift they leave between the table and the server. -/
namespace JustMail.Webmail
open Foundation Foundation.Sieve

/-- How a call that changes a rule fails. -/
inductive SieveFailure where
  | notFound
  | locked
  | activationFailed
  deriving DecidableEq

def SieveFailure.title : SieveFailure → JsString
  | .notFound => js "Filter not found"
  | .locked => js "Mailbox locked"
  | .activationFailed => js "Filter saved, but activating it on the mail server failed"

/-- `live` remembers the rules of the script that became active last. -/
structure MailboxState where
  now : Nat
  table : RuleTable
  server : SieveServer
  lease : Option Nat
  live : List CompilableRule

/-- Before the first call the server has no script. -/
def MailboxState.initial (now : Nat) (table : RuleTable) : MailboxState := ⟨now,table,⟨none,false⟩,none,[]⟩

/-- A script that was stored but not activated replaces one that already is active. -/
def becomesActive (server : SieveServer) : PushOutcome → Bool
  | .refused => false
  | .notActivated => server.active
  | .logoutFailed | .ok => true

def MailboxState.upload (s : MailboxState) (rules : List CompilableRule) (outcome : PushOutcome) : MailboxState :=
  { s with
    server := pushScript s.server (compileScript rules) outcome
    live := if becomesActive s.server outcome then rules else s.live }

section Calls
variable (redis : Bool) (mailboxId : Nat)

/-- The session holds the mailbox password exactly when the mailbox is unlocked. -/
def sync (unlocked : Bool) (outcome : PushOutcome) (s : MailboxState) : Except SieveFailure Unit × MailboxState :=
  if unlocked then
    let s := s.upload (enabledRules (loadRules s.table mailboxId)) outcome
    if outcome = .ok then (.ok (),{ s with lease := markReconciled redis s.now s.lease })
    else (.error .activationFailed,s)
  else (.error .locked,s)

/-- `createRule`, `updateRule` and `deleteRule`: the row is written before the upload
is tried, and stays written when it fails. -/
def changeRule (w : RuleWrite) (unlocked : Bool) (outcome : PushOutcome) (s : MailboxState) :
    Except SieveFailure Unit × MailboxState :=
  match applyWrite s.now mailboxId s.table w with
  | none => (.error .notFound,s)
  | some table => sync redis mailboxId unlocked outcome { s with table }

/-- `SET .. EX .. NX` takes the lease where it is free, also when the upload then fails. -/
def reconcile (unlocked : Bool) (outcome : PushOutcome) (rows : List SieveRuleRow) (s : MailboxState) : MailboxState :=
  let enabled := enabledRules rows
  if enabled.length = 0 then s
  else if !unlocked then s
  else if leaseHeld redis s.now s.lease then s
  else { s with lease := markReconciled redis s.now s.lease }.upload enabled outcome

def listRules (unlocked : Bool) (outcome : PushOutcome) (s : MailboxState) : List SieveRuleRow × MailboxState :=
  let rows := loadRules s.table mailboxId
  (rows,reconcile redis unlocked outcome rows s)

inductive MailboxCall where
  | wait (seconds : Nat)
  | change (w : RuleWrite) (unlocked : Bool) (outcome : PushOutcome)
  | list (unlocked : Bool) (outcome : PushOutcome)

def mailboxStep (s : MailboxState) : MailboxCall → Option MailboxState
  | .wait seconds => some { s with now := s.now + seconds }
  | .change w unlocked outcome => some (changeRule redis mailboxId w unlocked outcome s).2
  | .list unlocked outcome => some (listRules redis mailboxId unlocked outcome s).2

/-- The server acts as the rules in the table ask. No script acts as the empty one. -/
def Healed (s : MailboxState) : Prop :=
  parse (s.server.activeScript.getD []) = parse (wantedScript s.table mailboxId)

end Calls

section Drift
variable {redis : Bool} {mailboxId : Nat} {s t : MailboxState}

/-- The active script is that of the remembered rules; without one there are none. -/
def Live (s : MailboxState) : Prop :=
  (s.server.activeScript = none ∧ s.live = []) ∨ s.server.activeScript = some (compileScript s.live)

/-- What an upload leaves active. -/
theorem activeScript_pushScript (server : SieveServer) (script : JsString) (outcome : PushOutcome) :
    (pushScript server script outcome).activeScript =
      if becomesActive server outcome then some script else server.activeScript := by
  cases outcome with
  | refused | logoutFailed | ok => rfl
  | notActivated => cases hactive : server.active <;> simp [pushScript,becomesActive,SieveServer.activeScript,hactive]

theorem live_upload (h : Live s) (rules : List CompilableRule) (outcome : PushOutcome) :
    Live (s.upload rules outcome) := by
  have hactive := activeScript_pushScript s.server (compileScript rules) outcome
  unfold Live MailboxState.upload
  by_cases hbecomes : becomesActive s.server outcome = true
  · rw [if_pos hbecomes] at hactive
    exact .inr (by simpa only [if_pos hbecomes] using hactive)
  · rw [if_neg hbecomes] at hactive
    simp only [hactive,if_neg hbecomes]
    exact h

theorem live_sync (h : Live s) (unlocked : Bool) (outcome : PushOutcome) :
    Live (sync redis mailboxId unlocked outcome s).2 := by
  have hup := live_upload h (enabledRules (loadRules s.table mailboxId)) outcome
  unfold sync
  split
  · split
    · exact hup
    · exact hup
  · exact h

theorem live_reconcile (h : Live s) (unlocked : Bool) (outcome : PushOutcome) (rows : List SieveRuleRow) :
    Live (reconcile redis unlocked outcome rows s) := by
  have hlease : Live { s with lease := markReconciled redis s.now s.lease } := h
  simp only [reconcile]
  split
  · exact h
  · split
    · exact h
    · split
      · exact h
      · exact live_upload hlease (enabledRules rows) outcome

theorem live_step (h : Live s) {call : MailboxCall} (hstep : mailboxStep redis mailboxId s call = some t) : Live t := by
  cases call with
  | wait seconds =>
    cases hstep
    exact h
  | change w unlocked outcome =>
    cases hstep
    unfold changeRule
    split
    · exact h
    · rename_i table _
      have htable : Live { s with table } := h
      exact live_sync htable unlocked outcome
  | list unlocked outcome =>
    cases hstep
    exact live_reconcile h unlocked outcome _

private theorem parse_no_rules : parse (compileScript []) = parse [] := by
  have hlex : lex (compileScript []) = lex [] := by decide +kernel
  rw [parse,hlex,← parse]

theorem Live.meaning (h : Live s) : parse (s.server.activeScript.getD []) = parse (compileScript s.live) := by
  rcases h with ⟨hnone,hlive⟩ | hsome
  · rw [hnone,hlive,parse_no_rules]
    rfl
  · rw [hsome]
    rfl

/-- After any history, a listing that may upload leaves the server as the table asks
exactly when some rule is enabled or the script that became active last had no command. -/
theorem drift_healed_iff {now : Nat} {table : RuleTable}
    (hrun : Run (mailboxStep redis mailboxId) (fun _ _ => True) (.initial now table) s)
    (hlease : leaseHeld redis s.now s.lease = false) :
    Healed mailboxId (listRules redis mailboxId true .ok s).2 ↔
      enabledRules (loadRules s.table mailboxId) ≠ [] ∨ parse (compileScript s.live) = parse (compileScript []) := by
  have hlive : Live s := hrun.invariant (fun _ _ _ h _ hstep => live_step h hstep) (.inl ⟨rfl,rfl⟩)
  by_cases henabled : enabledRules (loadRules s.table mailboxId) = []
  · have hsame : (listRules redis mailboxId true .ok s).2 = s := by simp [listRules,reconcile,henabled]
    rw [hsame,Healed,hlive.meaning,wantedScript,henabled]
    simp
  · have hpushed : (listRules redis mailboxId true .ok s).2 =
        { s with lease := markReconciled redis s.now s.lease }.upload (enabledRules (loadRules s.table mailboxId)) .ok := by
      simp [listRules,reconcile,henabled,hlease]
    have hactive : (listRules redis mailboxId true .ok s).2.server.activeScript = some (wantedScript s.table mailboxId) := by
      rw [hpushed]
      rfl
    have htable : (listRules redis mailboxId true .ok s).2.table = s.table := by rw [hpushed]; rfl
    rw [Healed,hactive,htable]
    exact iff_of_true rfl (.inl henabled)

private def commandCounts (mailboxId : Nat) (s : MailboxState) : Option Nat × Option Nat :=
  ((parse (s.server.activeScript.getD [])).map List.length,(parse (wantedScript s.table mailboxId)).map List.length)

private theorem not_healed_of_counts (h : (commandCounts mailboxId s).1 ≠ (commandCounts mailboxId s).2) :
    ¬Healed mailboxId s := by
  intro hhealed
  apply h
  simp only [commandCounts]
  rw [show parse (s.server.activeScript.getD []) = parse (wantedScript s.table mailboxId) from hhealed]

private def oneRule : SieveRuleRequest := ⟨⟨js "A",.all,[],[⟨.discard,none⟩]⟩,true⟩

/-- The upload of a new rule fails, and the rule is listed at once. -/
theorem failed_create_healed :
    ∃ s, Run (mailboxStep true 7) (fun _ _ => True) (.initial 0 .empty) s ∧
      leaseHeld true s.now s.lease = false ∧ ¬Healed 7 s ∧ Healed 7 (listRules true 7 true .ok s).2 := by
  have hview : ((runActions (mailboxStep true 7) (fun _ _ => True) (.initial 0 .empty)
      [.change (.create 1 oneRule) true .refused]).map fun s =>
        (leaseHeld true s.now s.lease,commandCounts 7 s,decide (enabledRules (loadRules s.table 7) ≠ []))) =
      some (false,(some 0,some 1),true) := by decide +kernel
  obtain ⟨s,hs,hview⟩ := Option.map_eq_some_iff.mp hview
  simp only [Prod.mk.injEq,decide_eq_true_eq] at hview
  obtain ⟨hlease,hcounts,henabled⟩ := hview
  have hdrift : ¬Healed 7 s := not_healed_of_counts (by simp [hcounts])
  exact ⟨s,.of_actions hs,hlease,hdrift,(drift_healed_iff (.of_actions hs) hlease).mpr (.inl henabled)⟩

/-- The upload after the last rule is deleted fails, and the lease runs out. -/
theorem failed_delete_not_healed :
    ∃ s, Run (mailboxStep true 7) (fun _ _ => True) (.initial 0 .empty) s ∧
      leaseHeld true s.now s.lease = false ∧ ¬Healed 7 (listRules true 7 true .ok s).2 := by
  have hview : ((runActions (mailboxStep true 7) (fun _ _ => True) (.initial 0 .empty)
      [.change (.create 1 oneRule) true .ok,.change (.delete 1) true .refused,.wait RECONCILE_TTL_SECONDS]).map fun s =>
        (leaseHeld true s.now s.lease,commandCounts 7 (listRules true 7 true .ok s).2)) =
      some (false,(some 1,some 0)) := by decide +kernel
  obtain ⟨s,hs,hview⟩ := Option.map_eq_some_iff.mp hview
  obtain ⟨hlease,hcounts⟩ := Prod.mk.inj hview
  exact ⟨s,.of_actions hs,hlease,not_healed_of_counts (by simp [hcounts])⟩

end Drift
end JustMail.Webmail
