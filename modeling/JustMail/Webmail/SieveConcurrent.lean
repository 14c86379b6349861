import JustMail.Webmail.SieveService
import JustMail.Foundation.Runs

/-! Calls that change the rules of one unlocked mailbox at the same time. Each writes
its row, loads all rules, uploads them and marks the mailbox reconciled; a call that
returns successfully has done all four. -/
namespace JustMail.Webmail
open Foundation

/-- Where a call stands. A loaded snapshot carries its number among all loads. -/
inductive SyncPhase where
  | written
  | loaded (n : Nat) (rows : List SieveRuleRow)
  | pushed

/-- The number of the snapshot that a call holds. -/
def SyncPhase.snapshot : SyncPhase → Nat
  | .loaded n _ => n
  | _ => 0

/-- `begun` counts the calls, `loads` the snapshots taken, and `lastPushed` is the
newest snapshot uploaded so far. -/
structure SyncState where
  now : Nat
  table : RuleTable
  server : SieveServer
  lease : Option Nat
  calls : Nat → Option SyncPhase
  begun : Nat
  loads : Nat
  lastPushed : Nat

inductive SyncAction where
  | wait (seconds : Nat)
  | write (call : Nat) (w : RuleWrite)
  | load (call : Nat)
  | push (call : Nat)
  | finish (call : Nat)

def setCall (calls : Nat → Option SyncPhase) (c : Nat) (phase : Option SyncPhase) : Nat → Option SyncPhase :=
  fun d => if d = c then phase else calls d

/-- No call has been made yet. -/
structure SyncState.Fresh (s : SyncState) : Prop where
  calls (c : Nat) : s.calls c = none
  begun : s.begun = 0
  lastPushed : s.lastPushed = 0

/-- Every call has returned. -/
def SyncState.Quiet (s : SyncState) : Prop := ∀ c, s.calls c = none

section Steps
variable (redis : Bool) (mailboxId : Nat)

def syncStep (s : SyncState) : SyncAction → Option SyncState
  | .wait seconds => some { s with now := s.now + seconds }
  | .write c w =>
    match s.calls c, applyWrite s.now mailboxId s.table w with
    | none, some table => some { s with table, calls := setCall s.calls c (some .written), begun := s.begun+1 }
    | _, _ => none
  | .load c =>
    match s.calls c with
    | some .written =>
      some { s with
        calls := setCall s.calls c (some (.loaded (s.loads+1) (loadRules s.table mailboxId)))
        loads := s.loads+1 }
    | _ => none
  | .push c =>
    match s.calls c with
    | some (.loaded n rows) =>
      some { s with
        server := pushScript s.server (compileScript (enabledRules rows)) .ok
        calls := setCall s.calls c (some .pushed)
        lastPushed := max s.lastPushed n }
    | _ => none
  | .finish c =>
    match s.calls c with
    | some .pushed =>
      some { s with lease := markReconciled redis s.now s.lease, calls := setCall s.calls c none }
    | _ => none

/-- No snapshot is uploaded after one that was loaded later. -/
def InLoadOrder (s : SyncState) : SyncAction → Prop
  | .push c => ∀ phase ∈ s.calls c, s.lastPushed < phase.snapshot
  | _ => True

instance (s : SyncState) (a : SyncAction) : Decidable (InLoadOrder s a) :=
  match a with
  | .push c => inferInstanceAs (Decidable (∀ phase ∈ s.calls c, s.lastPushed < phase.snapshot))
  | .wait _ | .write _ _ | .load _ | .finish _ => .isTrue trivial

end Steps

section Invariant
variable {redis : Bool} {mailboxId : Nat} {s t : SyncState}

/-- Some call still has to load, or holds a snapshot newer than number `n`. -/
def NewerUnderway (s : SyncState) (n : Nat) : Prop :=
  (∃ c, s.calls c = some .written) ∨ ∃ c k rows, s.calls c = some (.loaded k rows) ∧ n < k

/-- The active script is the wanted one or a newer upload is under way, and so for
every snapshot that may still be uploaded. -/
structure Converges (mailboxId : Nat) (s : SyncState) : Prop where
  counted (c n : Nat) (rows : List SieveRuleRow) : s.calls c = some (.loaded n rows) → n ≤ s.loads
  pushed : s.lastPushed ≤ s.loads
  server : s.begun = 0 ∨ s.server.activeScript = some (wantedScript s.table mailboxId) ∨ NewerUnderway s s.lastPushed
  snapshot (c n : Nat) (rows : List SieveRuleRow) : s.calls c = some (.loaded n rows) → s.lastPushed < n →
    rows = loadRules s.table mailboxId ∨ NewerUnderway s n

def SyncAction.call : SyncAction → Option Nat
  | .wait _ => none
  | .write c _ | .load c | .push c | .finish c => some c

private theorem setCall_self (calls : Nat → Option SyncPhase) (c : Nat) (phase : Option SyncPhase) :
    setCall calls c phase c = phase := if_pos rfl

private theorem setCall_ne (calls : Nat → Option SyncPhase) {c d : Nat} (h : d ≠ c) (phase : Option SyncPhase) :
    setCall calls c phase d = calls d := if_neg h

/-- What is under way stays so when a call moves on that was neither. -/
private theorem NewerUnderway.move {n c : Nat} (h : NewerUnderway s n) {phase : Option SyncPhase}
    (hcalls : t.calls = setCall s.calls c phase) (hw : s.calls c ≠ some .written)
    (hl : ∀ k rows, s.calls c = some (.loaded k rows) → k ≤ n) : NewerUnderway t n := by
  rcases h with ⟨d,hd⟩ | ⟨d,k,rows,hd,hk⟩
  · have hne : d ≠ c := fun he => hw (he ▸ hd)
    exact .inl ⟨d,by rw [hcalls,setCall_ne _ hne,hd]⟩
  · have hne : d ≠ c := fun he => absurd (hl k rows (he ▸ hd)) (by omega)
    exact .inr ⟨d,k,rows,by rw [hcalls,setCall_ne _ hne,hd],hk⟩

/-- Only a call that moves to a snapshot gains one. -/
private theorem loaded_of_setCall {c d n : Nat} {rows : List SieveRuleRow} {phase : Option SyncPhase}
    (hphase : ∀ k rows', phase ≠ some (.loaded k rows')) (h : setCall s.calls c phase d = some (.loaded n rows)) :
    s.calls d = some (.loaded n rows) := by
  by_cases hdc : d = c
  · subst hdc
    rw [setCall_self] at h
    exact absurd h (hphase n rows)
  · rwa [setCall_ne _ hdc] at h

private theorem converges_write (h : Converges mailboxId s) (c : Nat) (table : RuleTable) :
    Converges mailboxId { s with table, calls := setCall s.calls c (some .written), begun := s.begun+1 } := by
  have hnew : ∀ n, NewerUnderway { s with table, calls := setCall s.calls c (some .written), begun := s.begun+1 } n :=
    fun n => .inl ⟨c,setCall_self _ _ _⟩
  refine ⟨fun d n rows hd => ?_,h.pushed,.inr (.inr (hnew _)),fun _ n _ _ _ => .inr (hnew n)⟩
  exact h.counted d n rows (loaded_of_setCall (by simp) hd)

private theorem converges_load (h : Converges mailboxId s) (c : Nat) :
    Converges mailboxId { s with
      calls := setCall s.calls c (some (.loaded (s.loads+1) (loadRules s.table mailboxId))), loads := s.loads+1 } := by
  -- the snapshot taken here is the table itself, and newer than every other one
  have hcase : ∀ d n rows,
      setCall s.calls c (some (.loaded (s.loads+1) (loadRules s.table mailboxId))) d = some (.loaded n rows) →
      (n = s.loads+1 ∧ rows = loadRules s.table mailboxId) ∨ n ≤ s.loads := by
    intro d n rows hd
    by_cases hdc : d = c
    · subst hdc
      rw [setCall_self] at hd
      cases hd
      exact .inl ⟨rfl,rfl⟩
    · rw [setCall_ne _ hdc] at hd
      exact .inr (h.counted d n rows hd)
  refine ⟨fun d n rows hd => ?_,h.pushed.trans (Nat.le_succ _),.inr (.inr (.inr ⟨c,_,_,setCall_self _ _ _,?_⟩)),
    fun d n rows hd _ => ?_⟩
  · rcases hcase d n rows hd with ⟨rfl,-⟩ | hn
    · exact le_rfl
    · exact hn.trans (Nat.le_succ _)
  · exact Nat.lt_succ_of_le h.pushed
  · rcases hcase d n rows hd with ⟨-,rfl⟩ | hn
    · exact .inl rfl
    · exact .inr (.inr ⟨c,_,_,setCall_self _ _ _,Nat.lt_succ_of_le hn⟩)

private theorem converges_push (h : Converges mailboxId s) {c n : Nat} {rows : List SieveRuleRow}
    (hc : s.calls c = some (.loaded n rows)) (hn : s.lastPushed < n) :
    Converges mailboxId { s with
      server := pushScript s.server (compileScript (enabledRules rows)) .ok
      calls := setCall s.calls c (some .pushed)
      lastPushed := max s.lastPushed n } := by
  have hw : s.calls c ≠ some .written := by simp [hc]
  have hl : ∀ m, n ≤ m → ∀ k rows', s.calls c = some (.loaded k rows') → k ≤ m := by
    intro m hm k rows' hk
    rw [hc] at hk
    cases hk
    exact hm
  rw [Nat.max_eq_right hn.le]
  refine ⟨fun d k rows' hd => ?_,h.counted c n rows hc,.inr ?_,fun d k rows' hd hk => ?_⟩
  · exact h.counted d k rows' (loaded_of_setCall (by simp) hd)
  · rcases h.snapshot c n rows hc hn with rfl | hnew
    · exact .inl rfl
    · exact .inr (hnew.move rfl hw (hl n le_rfl))
  · rcases h.snapshot d k rows' (loaded_of_setCall (by simp) hd) (hn.trans hk) with he | hnew
    · exact .inl he
    · exact .inr (hnew.move rfl hw (hl k hk.le))

private theorem converges_finish (h : Converges mailboxId s) {c : Nat} (hc : s.calls c = some .pushed)
    (lease : Option Nat) : Converges mailboxId { s with lease, calls := setCall s.calls c none } := by
  have hw : s.calls c ≠ some .written := by simp [hc]
  have hl : ∀ m k rows, s.calls c = some (.loaded k rows) → k ≤ m := fun m k rows hk => absurd hk (by simp [hc])
  refine ⟨fun d n rows hd => h.counted d n rows (loaded_of_setCall (by simp) hd),h.pushed,?_,fun d n rows hd hn => ?_⟩
  · rcases h.server with h0 | hok | hnew
    · exact .inl h0
    · exact .inr (.inl hok)
    · exact .inr (.inr (hnew.move rfl hw (hl _)))
  · rcases h.snapshot d n rows (loaded_of_setCall (by simp) hd) hn with he | hnew
    · exact .inl he
    · exact .inr (hnew.move rfl hw (hl _))

theorem syncStep_frame {a : SyncAction} {c : Nat} (hstep : syncStep redis mailboxId s a = some t)
    (hc : a.call ≠ some c) : t.calls c = s.calls c := by
  have hset : ∀ d phase, d ≠ c → setCall s.calls d phase c = s.calls c :=
    fun d phase hd => setCall_ne _ (Ne.symm hd) phase
  cases a with
  | wait seconds =>
    cases hstep
    rfl
  | write d w | load d | push d | finish d =>
    have hd : d ≠ c := fun he => hc (congrArg some he)
    simp only [syncStep] at hstep
    split at hstep
    · cases hstep
      exact hset d _ hd
    · simp at hstep

theorem converges_step (h : Converges mailboxId s) {a : SyncAction} (ha : InLoadOrder s a)
    (hstep : syncStep redis mailboxId s a = some t) : Converges mailboxId t := by
  cases a with
  | wait seconds =>
    cases hstep
    exact ⟨h.counted,h.pushed,h.server,h.snapshot⟩
  | write c w =>
    simp only [syncStep] at hstep
    split at hstep
    · cases hstep
      exact converges_write h c _
    · simp at hstep
  | load c =>
    simp only [syncStep] at hstep
    split at hstep
    · cases hstep
      exact converges_load h c
    · simp at hstep
  | push c =>
    simp only [syncStep] at hstep
    split at hstep
    · rename_i n rows hc
      cases hstep
      exact converges_push h hc (ha _ hc)
    · simp at hstep
  | finish c =>
    simp only [syncStep] at hstep
    split at hstep
    · rename_i hc
      cases hstep
      exact converges_finish h hc _
    · simp at hstep

/-- Calls that upload in the order in which they loaded leave the wanted script
active once all of them have returned. -/
theorem filters_converge (hs : s.Fresh) (hrun : Run (syncStep redis mailboxId) InLoadOrder s t) (hquiet : t.Quiet)
    (hcalls : t.begun ≠ 0) : t.server.activeScript = some (wantedScript t.table mailboxId) := by
  have hinit : Converges mailboxId s :=
    ⟨fun c n rows hc => absurd hc (by simp [hs.calls c]),hs.lastPushed ▸ Nat.zero_le _,.inl hs.begun,
      fun c n rows hc => absurd hc (by simp [hs.calls c])⟩
  have h := hrun.invariant (fun _ _ _ hinv ha hstep => converges_step hinv ha hstep) hinit
  rcases h.server with h0 | hok | ⟨c,hc⟩ | ⟨c,n,rows,hc,-⟩
  · exact absurd h0 hcalls
  · exact hok
  · exact absurd hc (by simp [hquiet c])
  · exact absurd hc (by simp [hquiet c])

/-- No rule, no script, no call. -/
def SyncState.initial : SyncState := ⟨0,.empty,⟨none,false⟩,none,fun _ => none,0,0,0⟩

theorem SyncState.initial_fresh : SyncState.initial.Fresh := ⟨fun _ => rfl,rfl,rfl⟩

/-- Two rules are created at once. The call that loaded first uploads first. -/
def orderedCalls : List SyncAction :=
  [.write 1 (.create 1 ⟨⟨js "A",.all,[],[⟨.keep,none⟩]⟩,true⟩),.load 1,
    .write 2 (.create 2 ⟨⟨js "B",.all,[],[⟨.stop,none⟩]⟩,true⟩),.push 1,.load 2,.push 2,.finish 1,.finish 2]

/-- All calls have returned when the listed ones have and no other took a step. -/
private theorem quiet_of_actions {allowed : SyncState → SyncAction → Prop} [∀ s a, Decidable (allowed s a)]
    {actions : List SyncAction} (hs : s.Fresh) (h : runActions (syncStep redis mailboxId) allowed s actions = some t)
    (hlisted : ∀ a ∈ actions, ∀ c ∈ a.call, t.calls c = none) : t.Quiet := by
  intro c
  by_cases hc : ∃ a ∈ actions, a.call = some c
  · obtain ⟨a,ha,hac⟩ := hc
    exact hlisted a ha c hac
  · have hkeep : ∀ a ∈ actions, ∀ s t : SyncState, s.calls c = none → syncStep redis mailboxId s a = some t →
        t.calls c = none := by
      intro a ha s t hsc hstep
      rw [syncStep_frame hstep fun he => hc ⟨a,ha,he⟩]
      exact hsc
    exact runActions_invariant (fun s => s.calls c = none) hkeep h (hs.calls c)

theorem ordered_calls_converge :
    ∃ t, Run (syncStep true 7) InLoadOrder .initial t ∧ t.Quiet ∧ t.begun = 2 ∧
      t.server.activeScript = some (wantedScript t.table 7) := by
  have hview : ((runActions (syncStep true 7) InLoadOrder .initial orderedCalls).map fun t =>
      (t.begun,(t.calls 1).isNone,(t.calls 2).isNone)) = some (2,true,true) := by decide +kernel
  obtain ⟨t,ht,hview⟩ := Option.map_eq_some_iff.mp hview
  simp only [Prod.mk.injEq,Option.isNone_iff_eq_none] at hview
  obtain ⟨hbegun,h1,h2⟩ := hview
  have hquiet : t.Quiet := quiet_of_actions SyncState.initial_fresh ht (by simp [orderedCalls,SyncAction.call,h1,h2])
  exact ⟨t,.of_actions ht,hquiet,hbegun,
    filters_converge SyncState.initial_fresh (.of_actions ht) hquiet (by simp [hbegun])⟩

/-- The same two calls, but the one that loaded first uploads last. -/
def overtakenCalls : List SyncAction :=
  [.write 1 (.create 1 ⟨⟨js "A",.all,[],[⟨.keep,none⟩]⟩,true⟩),.load 1,
    .write 2 (.create 2 ⟨⟨js "B",.all,[],[⟨.stop,none⟩]⟩,true⟩),.load 2,.push 2,.push 1,.finish 1,.finish 2]

theorem overtaken_call_loses_rule :
    ∃ t, Run (syncStep true 7) (fun _ _ => True) .initial t ∧ t.Quiet ∧ t.begun = 2 ∧
      t.server.activeScript ≠ some (wantedScript t.table 7) := by
  have hview : ((runActions (syncStep true 7) (fun _ _ => True) .initial overtakenCalls).map fun t =>
      (t.begun,(t.calls 1).isNone,(t.calls 2).isNone,
        decide (t.server.activeScript = some (wantedScript t.table 7)))) = some (2,true,true,false) := by decide +kernel
  obtain ⟨t,ht,hview⟩ := Option.map_eq_some_iff.mp hview
  simp only [Prod.mk.injEq,Option.isNone_iff_eq_none,decide_eq_false_iff_not] at hview
  obtain ⟨hbegun,h1,h2,hscript⟩ := hview
  exact ⟨t,.of_actions ht,quiet_of_actions SyncState.initial_fresh ht (by simp [overtakenCalls,SyncAction.call,h1,h2]),
    hbegun,hscript⟩

end Invariant
end JustMail.Webmail
