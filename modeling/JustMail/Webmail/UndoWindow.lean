import JustMail.Webmail.SendLifecycle
import JustMail.Foundation.Decimal

/-! `resolveSendAt` and the undo window: a send that is taken back in time is never dispatched, whatever the dispatch runs
do that are under way. The clock of `ScheduledSends` counts milliseconds here. -/
namespace JustMail.Webmail
open Foundation

/-- A `BadRequestException`. -/
structure BadRequest where
  title : JsString
  detail : JsString

/-- What the time of a send is resolved with; `getTime` reads a date and is `none` for NaN. -/
structure UndoConfig where
  undoSeconds : Nat
  maxDays : Nat
  getTime : JsString → Option Int

def resolveSendTime (cfg : UndoConfig) (sendAt : Option JsString) (nowMs : Nat) : Except BadRequest Nat :=
  let floor := nowMs + cfg.undoSeconds * 1000
  match sendAt.filter (· ≠ []) with
  | none => .ok floor
  | some sendAt => match cfg.getTime sendAt with
    | none => .error ⟨js "Invalid send time",js "send_at is not a valid date."⟩
    | some requested =>
      let horizon := nowMs + cfg.maxDays * 24 * 60 * 60 * 1000
      if (horizon : Int) < requested then
        .error ⟨js "Send time too far ahead",js "Scheduled sends may be at most " ++ decimal cfg.maxDays ++ js " days in the future."⟩
      else .ok (max requested floor).toNat

section Statement
variable (cfg : SendConfig)

/-- The user takes a send back at `t`: this is recorded unless the send was taken back before, and from then on, in every
continuation, the message is not handed to the transport and the row stays cancelled. -/
structure TakenBack (id orgId mailboxId : Uuid) (t : SendState) : Prop where
  recorded : (cancelScheduledSend t id orgId mailboxId).log = t.log ++ [.cancelled id] ∨
    ∃ row, t.table.lookup id = some row ∧ row.status = .cancelled
  final : ∀ u, Run (step cfg) (fun _ _ => True) (cancelScheduledSend t id orgId mailboxId) u →
    .smtpStart id ∉ u.log ∧ ∃ row, u.table.lookup id = some row ∧ row.status = .cancelled

end Statement

section Reachable
variable {cfg : SendConfig} {s t : SendState} {a : SendAction} {f : ScheduledSendRow → ScheduledSendRow} {table : SendTable}

/-- What runs hold and what was handed to the transport are rows of the table. -/
structure Known (s : SendState) : Prop where
  held : ∀ r, ∀ x ∈ s.heldBy r, s.table.lookup x.id ≠ none
  started : ∀ id, .smtpStart id ∈ s.log → s.table.lookup id ≠ none

/-- A row that nobody has claimed yet, or that is beyond claiming. -/
structure Untouched (id : Uuid) (row : ScheduledSendRow) (s : SendState) : Prop where
  found : s.table.lookup id = some row
  unheld : ∀ r, ∀ x ∈ s.heldBy r, x.id ≠ id
  unsent : .smtpStart id ∉ s.log

/-- A step of a run by its parts: what the runs hold afterwards, what it writes to the log, and the one row it may write. -/
structure Proceeded (s t : SendState) (run : SendRun) : Prop where
  now : t.now = s.now
  held : ∀ q, ∀ x ∈ t.heldBy q, x ∈ s.heldBy q
  started : ∀ id, .smtpStart id ∈ t.log → .smtpStart id ∈ s.log ∨ id = run.current.id
  others : ∀ id, id ≠ run.current.id → t.table.lookup id = s.table.lookup id
  kept : ∀ id, s.table.lookup id ≠ none → t.table.lookup id ≠ none

theorem lookup_update_other {id id' : Uuid} (hf : ∀ r, (f r).id = r.id)
    (hne : id ≠ id') : (table.updateWhere (·.id == id') f hf).lookup id = table.lookup id := by
  rw [Table.lookup_updateWhere]
  cases hrow : table.lookup id with
  | none => rfl
  | some row =>
    have hid : row.id ≠ id' := by rw [Table.key_of_lookup hrow]; exact hne
    simp [hid]

theorem lookup_update_ne_none {id : Uuid} {p : ScheduledSendRow → Bool}
    (hf : ∀ r, (f r).id = r.id) (h : table.lookup id ≠ none) : (table.updateWhere p f hf).lookup id ≠ none := by
  rw [Table.lookup_updateWhere]
  simpa using h

theorem lookup_insert_ne_none {id : Uuid} {row : ScheduledSendRow} (hnew : table.lookup row.id = none)
    (h : table.lookup id ≠ none) : (table.insert row hnew).lookup id ≠ none := by
  rw [Table.lookup_insert]
  split
  · simp
  · exact h

variable {r : Uuid} {run : SendRun}

/-- The run moves on within its row, or ends. -/
theorem proceeded_move (hrun : s.runs r = some run) {next : Option SendRun} {log : List SendEvent}
    (hheld : ∀ x ∈ (next.map (·.held)).getD [], x ∈ run.held)
    (hlog : ∀ id, .smtpStart id ∈ log → .smtpStart id ∈ s.log ∨ id = run.current.id) :
    Proceeded s { s with runs := setRun s.runs r next, log } run := by
  refine ⟨rfl,fun q x hx => ?_,hlog,fun _ _ => rfl,fun _ h => h⟩
  rw [heldBy_setRun] at hx
  split at hx
  · subst q
    rw [heldBy_of_run hrun]
    exact hheld x hx
  · exact hx

theorem proceeded_close (hrun : s.runs r = some run) (hf : ∀ y, (f y).id = y.id) {e : SendEvent}
    (he : ∀ id, e ≠ .smtpStart id) :
    Proceeded s { s with
      runs := setRun s.runs r (nextRow run.rest)
      table := s.table.updateWhere (·.id == run.current.id) f hf
      log := s.log ++ [e] } run := by
  refine ⟨rfl,fun q x hx => ?_,fun id hid => ?_,fun id hne => lookup_update_other hf hne,
    fun id h => lookup_update_ne_none hf h⟩
  · rw [heldBy_setRun,held_nextRow] at hx
    split at hx
    · subst q
      rw [heldBy_of_run hrun]
      exact List.mem_cons_of_mem _ hx
    · exact hx
  · rcases List.mem_append.mp hid with hid | hid
    · exact .inl hid
    · exact absurd (List.mem_singleton.mp hid).symm (he id)

variable (cfg) in
theorem proceeded (hrun : s.runs r = some run) (outcome : Outcome) : Proceeded s (proceed cfg s r run outcome) run := by
  have hsame : ∀ id, SendEvent.smtpStart id ∈ s.log → .smtpStart id ∈ s.log ∨ id = run.current.id := fun _ => .inl
  have hstay : ∀ stage, ∀ x ∈ ((some { run with stage }).map SendRun.held).getD [], x ∈ run.held := fun _ _ hx => hx
  have hsnoc : ∀ e : SendEvent, (∀ id, e = .smtpStart id → id = run.current.id) →
      ∀ id, .smtpStart id ∈ s.log ++ [e] → .smtpStart id ∈ s.log ∨ id = run.current.id := by
    intro e he id hid
    rcases List.mem_append.mp hid with hid | hid
    · exact .inl hid
    · exact .inr (he id (List.mem_singleton.mp hid).symm)
  obtain ⟨stage,current,rest⟩ := run
  cases stage with
  | resolve =>
    cases outcome with
    | ok => exact proceeded_move hrun (hstay .smtp) (hsnoc _ fun id he => (SendEvent.smtpStart.inj he).symm)
    | fault message => exact proceeded_move hrun (hstay (.closeError message)) hsame
  | smtp =>
    cases outcome with
    | ok => exact proceeded_move hrun (hstay .append) (hsnoc _ fun id he => by simp at he)
    | fault message => exact proceeded_move hrun (hstay (.closeError message)) hsame
  | append => exact proceeded_move hrun (hstay .bust) hsame
  | bust =>
    cases outcome with
    | ok => exact proceeded_move hrun (hstay .closeSent) hsame
    | fault message => exact proceeded_move hrun (hstay (.closeError message)) hsame
  | closeSent =>
    cases outcome with
    | ok => exact proceeded_close hrun (sentRow_id s.now) (by simp)
    | fault message => exact proceeded_move hrun (hstay (.closeError message)) hsame
  | closeError error =>
    cases outcome with
    | ok =>
      by_cases hmax : current.attempts ≥ cfg.maxAttempts
      · have hclose := proceeded_close hrun (failedRow_id s.now error) (e := .mailBounced current.id current.attempts error) (by simp)
        simpa only [proceed,closeError,errorEvent,if_pos hmax] using hclose
      · have hclose := proceeded_close hrun (deferredRow_id cfg s.now error)
          (e := .mailDeferred current.id current.attempts error) (by simp)
        simpa only [proceed,closeError,errorEvent,if_neg hmax] using hclose
    | fault message => exact proceeded_move hrun (by simp) hsame

theorem heldBy_claim (s : SendState) (r : Uuid) (ids : List Uuid) {q : Uuid} {x : ScheduledSendRow}
    (hx : x ∈ SendState.heldBy ⟨s.now,claimRows s.now s.table ids,
      setRun s.runs r (nextRow (ids.filterMap (claimRows s.now s.table ids).lookup)),s.log⟩ q) :
    (x.id ∈ ids ∧ ∃ y, s.table.lookup x.id = some y) ∨ x ∈ s.heldBy q := by
  rw [heldBy_setRun,held_nextRow] at hx
  split at hx
  · obtain ⟨hid,y,hy,-⟩ := claimed_row hx
    exact .inl ⟨hid,y,hy⟩
  · exact .inr hx

theorem known_step (h : Known s) (hstep : step cfg s a = some t) : Known t := by
  cases a with
  | wait seconds =>
    cases hstep
    exact ⟨h.held,h.started⟩
  | send id orgId mailboxId sendAt =>
    simp only [step] at hstep
    split at hstep
    · rename_i hnew
      cases hstep
      exact ⟨fun r x hx => lookup_insert_ne_none hnew (h.held r x hx),fun id' hid => lookup_insert_ne_none hnew (h.started id' hid)⟩
    · simp at hstep
  | cancel id orgId mailboxId =>
    cases hstep
    rw [cancelScheduledSend]
    split
    · refine ⟨fun r x hx => lookup_update_ne_none (cancelRow_id s.now) (h.held r x hx),
        fun id' hid => lookup_update_ne_none (cancelRow_id s.now) (h.started id' ?_)⟩
      simpa using hid
    · exact h
  | claim r ids =>
    simp only [step] at hstep
    split at hstep
    · cases hstep
      refine ⟨fun q x hx => lookup_update_ne_none (claimRow_id s.now) ?_,
        fun id hid => lookup_update_ne_none (claimRow_id s.now) (h.started id hid)⟩
      rcases heldBy_claim s r ids hx with ⟨-,y,hy⟩ | hx
      · simp [hy]
      · exact h.held q x hx
    · simp at hstep
  | proceed r outcome =>
    obtain ⟨run,hrun,rfl⟩ := Option.map_eq_some_iff.mp hstep
    have hmoved := proceeded cfg hrun outcome
    refine ⟨fun q x hx => hmoved.kept _ (h.held q x (hmoved.held q x hx)),fun id hid => hmoved.kept _ ?_⟩
    rcases hmoved.started id hid with hid | rfl
    · exact h.started id hid
    · refine h.held r run.current ?_
      rw [heldBy_of_run hrun]
      exact List.mem_cons_self
  | crash r =>
    simp only [step] at hstep
    split at hstep
    · cases hstep
      refine ⟨fun q x hx => h.held q x ?_,h.started⟩
      rw [heldBy_setRun] at hx
      split at hx
      · simp at hx
      · exact hx
    · simp at hstep

theorem now_step (hstep : step cfg s a = some t) : s.now ≤ t.now := by
  cases a with
  | wait seconds =>
    cases hstep
    exact Nat.le_add_right _ _
  | send id orgId mailboxId sendAt =>
    simp only [step] at hstep
    split at hstep
    · cases hstep
      exact le_rfl
    · simp at hstep
  | cancel id orgId mailboxId =>
    cases hstep
    rw [cancelScheduledSend]
    split <;> exact le_rfl
  | claim r ids =>
    simp only [step] at hstep
    split at hstep
    · cases hstep
      exact le_rfl
    · simp at hstep
  | proceed r outcome =>
    obtain ⟨run,hrun,rfl⟩ := Option.map_eq_some_iff.mp hstep
    exact (proceeded cfg hrun outcome).now.ge
  | crash r =>
    simp only [step] at hstep
    split at hstep
    · cases hstep
      exact le_rfl
    · simp at hstep

variable {id : Uuid} {row : ScheduledSendRow}

theorem untouched_cancel (h : Untouched id row s) (id' orgId mailboxId : Uuid) :
    Untouched id (if cancellable id' orgId mailboxId row then cancelRow s.now row else row)
      (cancelScheduledSend s id' orgId mailboxId) := by
  rw [cancelScheduledSend]
  by_cases hany : s.table.rows.any (cancellable id' orgId mailboxId) = true
  · rw [if_pos hany]
    exact ⟨by rw [Table.lookup_updateWhere,h.found,Option.map_some],h.unheld,by simpa using h.unsent⟩
  · have hrow : ¬cancellable id' orgId mailboxId row = true := fun hhit =>
      hany (List.any_eq_true.mpr ⟨row,(Table.lookup_eq_some.mp h.found).1,hhit⟩)
    rw [if_neg hany,if_neg hrow]
    exact h

/-- Only a cancellation writes a row that is not due and that nobody has claimed. -/
theorem untouched_step (h : Untouched id row s) (hdue : due cfg s.now row = false) (hstep : step cfg s a = some t) :
    Untouched id row t ∨ (row.status = .pending ∧ Untouched id (cancelRow s.now row) t) := by
  cases a with
  | wait seconds =>
    cases hstep
    exact .inl ⟨h.found,h.unheld,h.unsent⟩
  | send id' orgId mailboxId sendAt =>
    simp only [step] at hstep
    split at hstep
    · rename_i hnew
      cases hstep
      refine .inl ⟨?_,h.unheld,h.unsent⟩
      rw [Table.lookup_insert,if_neg]
      · exact h.found
      · rintro rfl
        rw [h.found] at hnew
        exact Option.some_ne_none _ hnew
    · simp at hstep
  | cancel id' orgId mailboxId =>
    cases hstep
    have hcancel := untouched_cancel h id' orgId mailboxId
    split at hcancel
    · rename_i hhit
      simp only [cancellable,Bool.and_eq_true,beq_iff_eq] at hhit
      exact .inr ⟨hhit.2,hcancel⟩
    · exact .inl hcancel
  | claim r ids =>
    simp only [step] at hstep
    split at hstep
    · rename_i hsel
      cases hstep
      have hfree : id ∉ ids := by
        intro hid
        have hall := hsel.2.2.1 id hid
        rw [h.found,Option.any_some,hdue] at hall
        exact Bool.false_ne_true hall
      refine .inl ⟨?_,fun q x hx => ?_,h.unsent⟩
      · rw [lookup_claimRows,h.found,Option.map_some,if_neg hfree]
      · rcases heldBy_claim s r ids hx with ⟨hid,-⟩ | hx
        · rintro rfl
          exact hfree hid
        · exact h.unheld q x hx
    · simp at hstep
  | proceed r outcome =>
    obtain ⟨run,hrun,rfl⟩ := Option.map_eq_some_iff.mp hstep
    have hmoved := proceeded cfg hrun outcome
    have hne : id ≠ run.current.id := by
      refine Ne.symm (h.unheld r run.current ?_)
      rw [heldBy_of_run hrun]
      exact List.mem_cons_self
    refine .inl ⟨(hmoved.others id hne).trans h.found,fun q x hx => h.unheld q x (hmoved.held q x hx),fun hid => ?_⟩
    rcases hmoved.started id hid with hid | hid
    · exact h.unsent hid
    · exact hne hid
  | crash r =>
    simp only [step] at hstep
    split at hstep
    · cases hstep
      refine .inl ⟨h.found,fun q x hx => h.unheld q x ?_,h.unsent⟩
      rw [heldBy_setRun] at hx
      split at hx
      · simp at hx
      · exact hx
    · simp at hstep

end Reachable

section Window
variable {cfg : SendConfig} {undo : UndoConfig} {start nowMs sendAt : Nat} {requested : Option JsString} {s s' t : SendState}
  {id orgId mailboxId : Uuid} {row : ScheduledSendRow}

/-- The undo window is the floor of every time that is accepted. -/
theorem resolveSendTime_floor (h : resolveSendTime undo requested nowMs = .ok sendAt) : nowMs + undo.undoSeconds * 1000 ≤ sendAt := by
  rw [resolveSendTime] at h
  split at h
  · exact (Except.ok.inj h).le
  · split at h
    · simp at h
    · dsimp only at h
      split at h
      · simp at h
      · rw [← Except.ok.inj h]
        omega

theorem known_initial (now : Nat) : Known (.initial now) :=
  ⟨fun _ _ hx => absurd hx List.not_mem_nil,fun _ hid => absurd hid List.not_mem_nil⟩

/-- A send has been taken back, or is still as it came in. -/
def InWindow (id : Uuid) (row : ScheduledSendRow) (s : SendState) : Prop :=
  ∃ row', Untouched id row' s ∧ (row' = row ∨ row'.status = .cancelled)

theorem due_cancelled {now : Nat} (h : row.status = .cancelled) : due cfg now row = false := by simp [due,h]

theorem due_pending {now : Nat} (h : row.status = .pending) (hnow : now < row.sendAt) : due cfg now row = false := by
  simp [due,h,hnow]

theorem untouched_cancelled (h : Untouched id row s) (hstatus : row.status = .cancelled)
    (hrun : Run (step cfg) (fun _ _ => True) s t) : Untouched id row t := by
  have hkept : ∀ u a v, Untouched id row u → True → step cfg u a = some v → Untouched id row v := by
    intro u a v hu _ hstep
    rcases untouched_step hu (due_cancelled hstatus) hstep with hv | ⟨hpending,-⟩
    · exact hv
    · exact absurd (hstatus.symm.trans hpending) (by decide)
  exact hrun.invariant hkept h

theorem inWindow_run (h : InWindow id row s) (hpending : row.status = .pending)
    (hrun : Run (step cfg) (fun _ _ => True) s t) (hnow : t.now < row.sendAt) : InWindow id row t := by
  have hkept : ∀ u a v, (u.now < row.sendAt → InWindow id row u) → True → step cfg u a = some v →
      v.now < row.sendAt → InWindow id row v := by
    intro u a v hu _ hstep hv
    have hbefore : u.now < row.sendAt := lt_of_le_of_lt (now_step hstep) hv
    obtain ⟨row',huntouched,hrow'⟩ := hu hbefore
    have hdue : due cfg u.now row' = false := by
      rcases hrow' with rfl | hcancelled
      · exact due_pending hpending hbefore
      · exact due_cancelled hcancelled
    rcases untouched_step huntouched hdue hstep with hsame | ⟨-,hcancelled⟩
    · exact ⟨row',hsame,hrow'⟩
    · exact ⟨_,hcancelled,.inr rfl⟩
  exact hrun.invariant hkept (fun _ => h) hnow

/-- Until the undo window is over a send is not handed to the transport, and taking it back works for good. -/
theorem undo_window (hreach : Run (step cfg) (fun _ _ => True) (.initial start) s)
    (hresolve : resolveSendTime undo requested nowMs = .ok sendAt) (hsend : step cfg s (.send id orgId mailboxId sendAt) = some s')
    (hrun : Run (step cfg) (fun _ _ => True) s' t) (hwindow : t.now < nowMs + undo.undoSeconds * 1000) :
    .smtpStart id ∉ t.log ∧ TakenBack cfg id orgId mailboxId t := by
  have hknown : Known s := hreach.invariant (fun _ _ _ h _ hstep => known_step h hstep) (known_initial start)
  simp only [step] at hsend
  split at hsend
  · rename_i hnew
    cases hsend
    let row : ScheduledSendRow := ⟨id,orgId,mailboxId,sendAt,.pending,0,none,s.now,none⟩
    have hhit : cancellable id orgId mailboxId row = true := by simp [cancellable,row]
    have huntouched : Untouched id row { s with table := s.table.insert row hnew } := by
      refine ⟨by rw [Table.lookup_insert,if_pos rfl],fun r x hx hid => ?_,fun hstarted => hknown.started id hstarted hnew⟩
      exact hknown.held r x hx (hid ▸ hnew)
    have hbefore : t.now < sendAt := lt_of_lt_of_le hwindow (resolveSendTime_floor hresolve)
    obtain ⟨found,hrow,hstatus⟩ := inWindow_run ⟨_,huntouched,.inl rfl⟩ rfl hrun hbefore
    have hcancel := untouched_cancel hrow id orgId mailboxId
    refine ⟨hrow.unsent,?_,fun u hu => ?_⟩
    · rcases hstatus with rfl | hcancelled
      · refine .inl ?_
        rw [cancelScheduledSend,if_pos]
        exact List.any_eq_true.mpr ⟨row,(Table.lookup_eq_some.mp hrow.found).1,hhit⟩
      · exact .inr ⟨found,hrow.found,hcancelled⟩
    · obtain ⟨row',hrow',hcancelled⟩ : ∃ row', Untouched id row' (cancelScheduledSend t id orgId mailboxId) ∧
        row'.status = .cancelled := by
        refine ⟨_,hcancel,?_⟩
        split
        · rfl
        · rename_i hmiss
          rcases hstatus with rfl | hcancelled
          · exact absurd hhit hmiss
          · exact hcancelled
      have hlater := untouched_cancelled hrow' hcancelled hu
      exact ⟨hlater.unsent,row',hlater.found,hcancelled⟩
  · simp at hsend

def tenSeconds : UndoConfig := ⟨10,30,fun _ => none⟩

/-- Another message is on its way, its run stalls and is reclaimed, while the user takes back the one sent last. -/
theorem undo_in_time : ∃ t, .smtpStart 2 ∉ t.log ∧ t.now = 9999 ∧ TakenBack exampleConfig 2 7 8 t := by
  let others : List SendAction := [.send 1 7 8 0,.claim 0 [1]]
  let after : List SendAction := [.wait 9999,.claim 1 [1],.proceed 0 .ok]
  have hfirst : ((runActions (step exampleConfig) (fun _ _ => True) (.initial 0) others).bind fun s =>
      (step exampleConfig s (.send 2 7 8 10000)).bind fun s' =>
        (runActions (step exampleConfig) (fun _ _ => True) s' after).map fun t => t.now) = some 9999 := by decide +kernel
  obtain ⟨s,hs,hrest⟩ := Option.bind_eq_some_iff.mp hfirst
  obtain ⟨s',hsend,hlast⟩ := Option.bind_eq_some_iff.mp hrest
  obtain ⟨t,ht,hnow⟩ := Option.map_eq_some_iff.mp hlast
  have hresolve : resolveSendTime tenSeconds none 0 = .ok 10000 := rfl
  have hsafe := undo_window (.of_actions hs) hresolve hsend (.of_actions ht) (by rw [hnow]; decide)
  exact ⟨t,hsafe.1,hnow,hsafe.2⟩

end Window
end JustMail.Webmail
