import JustMail.Webmail.SendLifecycle

/-! One worker that takes its ticks one after the other and never crashes: which
failures can make it send a message twice. -/
namespace JustMail.Webmail
open Foundation

/-- Only the worker `w` claims and proceeds, and it does not crash. -/
def SingleWorker (w : Uuid) : SendAction → Prop
  | .claim r _ => r = w
  | .proceed r _ => r = w
  | .crash _ => False
  | .wait _ | .send .. | .cancel .. => True

/-- `sendMail` has resolved for the run's current row. -/
def accepted (s : SendState) (run : SendRun) : Bool := s.log.contains (.smtpOk run.current.id)

/-- What may fail once a message is out: the append to Sent; the cache bust and the
`sent` update on an exhausted attempt; never the update that records the error. -/
def toleratesFault (cfg : SendConfig) (run : SendRun) : Bool :=
  match run.stage with
  | .bust | .closeSent => run.current.attempts ≥ cfg.maxAttempts
  | .closeError _ => false
  | .resolve | .smtp | .append => true

/-- No failure after an accepted `sendMail` puts the row back into the queue. -/
def NoLateFault (cfg : SendConfig) (s : SendState) : SendAction → Prop
  | .proceed r (.fault _) => ∀ run ∈ s.runs r, accepted s run = true → toleratesFault cfg run = true
  | _ => True

def SerialSafely (cfg : SendConfig) (w : Uuid) (s : SendState) (a : SendAction) : Prop :=
  SingleWorker w a ∧ NoLateFault cfg s a

instance (w : Uuid) (a : SendAction) : Decidable (SingleWorker w a) :=
  match a with
  | .claim r _ => inferInstanceAs (Decidable (r = w))
  | .proceed r _ => inferInstanceAs (Decidable (r = w))
  | .crash _ => inferInstanceAs (Decidable False)
  | .wait _ | .send .. | .cancel .. => inferInstanceAs (Decidable True)

instance (cfg : SendConfig) (s : SendState) (a : SendAction) : Decidable (NoLateFault cfg s a) :=
  match a with
  | .proceed _ (.fault _) => inferInstanceAs (Decidable (∀ _ ∈ _, _))
  | .proceed _ .ok => inferInstanceAs (Decidable True)
  | .wait _ | .send .. | .cancel .. | .claim .. | .crash _ => inferInstanceAs (Decidable True)

instance (cfg : SendConfig) (w : Uuid) (s : SendState) (a : SendAction) : Decidable (SerialSafely cfg w s a) :=
  inferInstanceAs (Decidable (_ ∧ _))

section Current

/-- Every held row carries the attempts of its table row. -/
def UpToDate (table : SendTable) (held : List ScheduledSendRow) : Prop :=
  ∀ x ∈ held, ∃ y, table.lookup x.id = some y ∧ y.attempts = x.attempts

variable {table : SendTable} {held held' : List ScheduledSendRow}

theorem UpToDate.release (h : UpToDate table held) (hsub : held' ⊆ held) : UpToDate table held' :=
  fun x hx => h x (hsub hx)

theorem UpToDate.insert (h : UpToDate table held) (row : ScheduledSendRow) (hnew : table.lookup row.id = none) :
    UpToDate (table.insert row hnew) held := by
  intro x hx
  obtain ⟨y,hy,he⟩ := h x hx
  refine ⟨y,?_,he⟩
  rw [Table.lookup_insert,if_neg,hy]
  intro hid
  rw [hid,hnew] at hy
  exact absurd hy (by simp)

theorem UpToDate.update (h : UpToDate table held) (p : ScheduledSendRow → Bool)
    {f : ScheduledSendRow → ScheduledSendRow} (hid : ∀ y, (f y).id = y.id) (hf : ∀ y, (f y).attempts = y.attempts) :
    UpToDate (table.updateWhere p f hid) held := by
  intro x hx
  obtain ⟨y,hy,he⟩ := h x hx
  refine ⟨if p y then f y else y,by rw [Table.lookup_updateWhere,hy,Option.map_some],?_⟩
  split
  · exact (hf y).trans he
  · exact he

theorem upToDate_claim (now : Nat) (ids : List Uuid) :
    UpToDate (claimRows now table ids) (ids.filterMap (claimRows now table ids).lookup) := by
  intro x hx
  obtain ⟨id,-,hlook⟩ := List.mem_filterMap.mp hx
  exact ⟨x,Table.key_of_lookup hlook ▸ hlook,rfl⟩

end Current

/-- The run is past its `sendMail`, and what is left to do cannot put the row back. -/
def pastSmtp (cfg : SendConfig) (run : SendRun) : Prop :=
  match run.stage with
  | .resolve | .smtp => False
  | .append | .bust | .closeSent => True
  | .closeError _ => run.current.attempts ≥ cfg.maxAttempts

/-- A row in a status that is never claimed again. -/
def Settled (table : SendTable) (id : Uuid) : Prop :=
  ∃ y, table.lookup id = some y ∧ (y.status = .sent ∨ y.status = .failed)

/-- An accepted message is settled or being closed, and was not dispatched after. -/
structure Delivered (cfg : SendConfig) (table : SendTable) (run : Option SendRun) (log : List SendEvent) : Prop where
  settled (id : Uuid) : .smtpOk id ∈ log → Settled table id ∨ ∃ r ∈ run, r.current.id = id ∧ pastSmtp cfg r
  once (id : Uuid) (pre post : List SendEvent) : log = pre ++ .smtpOk id :: post → .smtpStart id ∉ post

section Delivered
variable {cfg : SendConfig} {table table' : SendTable} {run run' : Option SendRun} {log : List SendEvent}

theorem Settled.keep {id : Uuid} (h : Settled table id) (hkeep : KeepsTerminal table table') : Settled table' id := by
  obtain ⟨y,hy,hst⟩ := h
  obtain ⟨y',hy',he⟩ := hkeep id y hy (by rcases hst with hst | hst <;> rw [hst] <;> rfl)
  exact ⟨y',hy',he ▸ hst⟩

/-- The run and the table change; what the run was closing is closed or still is. -/
theorem Delivered.move (h : Delivered cfg table run log) (hkeep : KeepsTerminal table table')
    (hrun : ∀ r ∈ run, .smtpOk r.current.id ∈ log → pastSmtp cfg r →
      Settled table' r.current.id ∨ ∃ r' ∈ run', r'.current.id = r.current.id ∧ pastSmtp cfg r') :
    Delivered cfg table' run' log where
  settled id hok := by
    rcases h.settled id hok with hset | ⟨r,hr,rfl,hpast⟩
    · exact .inl (hset.keep hkeep)
    · exact hrun r hr hok hpast
  once := h.once

theorem Delivered.snoc (h : Delivered cfg table run log) (e : SendEvent)
    (hstart : ∀ id, e = .smtpStart id → .smtpOk id ∉ log)
    (hok : ∀ id, e = .smtpOk id → ∃ r ∈ run, r.current.id = id ∧ pastSmtp cfg r) :
    Delivered cfg table run (log ++ [e]) where
  settled id hmem := by
    rcases List.mem_append.mp hmem with hold | hnew
    · exact h.settled id hold
    · exact .inr (hok id (List.mem_singleton.mp hnew).symm)
  once id pre post hlog := by
    rcases snoc_split hlog with ⟨rfl,-⟩ | ⟨post',rfl,hold⟩
    · exact List.not_mem_nil
    · rw [List.mem_append,not_or]
      refine ⟨h.once id pre post' hold,fun hm => ?_⟩
      exact hstart id (List.mem_singleton.mp hm).symm (by rw [hold]; simp)

end Delivered

structure SerialInvariant (cfg : SendConfig) (w : Uuid) (s : SendState) : Prop where
  base : SendInvariant s
  current : UpToDate s.table (s.heldBy w)
  delivered : Delivered cfg s.table (s.runs w) s.log

section Steps
variable {cfg : SendConfig} {w : Uuid} {s t : SendState} {run : SendRun}

private theorem holdsLatest_of_current (h : UpToDate s.table (s.heldBy w)) (hrun : s.runs w = some run) :
    holdsLatest s run = true := by
  obtain ⟨y,hy,he⟩ := h run.current (by rw [heldBy_of_run hrun]; exact List.mem_cons_self)
  simp [holdsLatest,hy,he]

theorem onLatestClaim_of_serial (h : UpToDate s.table (s.heldBy w)) {a : SendAction} (ha : SingleWorker w a) :
    OnLatestClaim s a := by
  cases a with
  | proceed r outcome =>
    obtain rfl : r = w := ha
    exact fun run hrun _ => holdsLatest_of_current h hrun
  | wait _ => trivial
  | send _ _ _ _ => trivial
  | cancel _ _ _ => trivial
  | claim _ _ => trivial
  | crash _ => trivial

/-- What a step of the worker adds to the general invariant. -/
private def Serial (cfg : SendConfig) (w : Uuid) (s : SendState) : Prop :=
  UpToDate s.table (s.heldBy w) ∧ Delivered cfg s.table (s.runs w) s.log

theorem setRun_self (runs : Uuid → Option SendRun) (w : Uuid) (run : Option SendRun) :
    setRun runs w run w = run := if_pos rfl

private theorem serial_move (h : SerialInvariant cfg w s) {run : Option SendRun} {log : List SendEvent}
    (hheld : (run.map (·.held)).getD [] ⊆ s.heldBy w) (hlog : Delivered cfg s.table run log) :
    Serial cfg w { s with runs := setRun s.runs w run, log } := by
  refine ⟨?_,?_⟩
  · rw [heldBy_setRun,if_pos rfl]
    exact h.current.release hheld
  · change Delivered cfg s.table (setRun s.runs w run w) log
    rw [setRun_self]
    exact hlog

/-- The attempt is closed in a way that settles the row, if its message is out. -/
private theorem serial_close (h : SerialInvariant cfg w s) (hrun : s.runs w = some run)
    {f : ScheduledSendRow → ScheduledSendRow} (hid : ∀ y, (f y).id = y.id) (hf : ∀ y, (f y).attempts = y.attempts)
    (hkeep : KeepsTerminal s.table (s.table.updateWhere (·.id == run.current.id) f hid))
    (hsettle : pastSmtp cfg run → ∀ y, (f y).status = .sent ∨ (f y).status = .failed) (e : SendEvent)
    (hstart : ∀ id, e ≠ .smtpStart id) (hok : ∀ id, e ≠ .smtpOk id) :
    Serial cfg w { s with
      runs := setRun s.runs w (nextRow run.rest)
      table := s.table.updateWhere (·.id == run.current.id) f hid
      log := s.log ++ [e] } := by
  have hheld := heldBy_of_run hrun
  refine ⟨?_,?_⟩
  · rw [heldBy_setRun,if_pos rfl,held_nextRow]
    refine (h.current.release ?_).update _ hid hf
    rw [hheld]
    exact List.subset_cons_self _ _
  · change Delivered cfg _ (setRun s.runs w (nextRow run.rest) w) _
    rw [setRun_self]
    refine (h.delivered.move hkeep fun r hr _ hpast => ?_).snoc e (fun id he => absurd he (hstart id))
      fun id he => absurd he (hok id)
    obtain rfl : run = r := Option.some.inj (hrun.symm.trans hr)
    obtain ⟨y,hy,-⟩ := h.current run.current (by rw [hheld]; exact List.mem_cons_self)
    refine .inl ⟨f y,?_,hsettle hpast y⟩
    rw [Table.lookup_updateWhere,hy,Option.map_some,if_pos (by simpa using Table.key_of_lookup hy)]

private theorem serial_proceed (h : SerialInvariant cfg w s) (hrun : s.runs w = some run)
    (outcome : Outcome) (hkeep : KeepsTerminal s.table (proceed cfg s w run outcome).table)
    (hguard : ∀ message, outcome = .fault message → accepted s run = true → toleratesFault cfg run = true) :
    Serial cfg w (proceed cfg s w run outcome) := by
  have hstay : ∀ stage, ((some { run with stage }).map SendRun.held).getD [] ⊆ s.heldBy w := by
    intro stage
    rw [heldBy_of_run hrun]
    exact List.Subset.refl _
  -- a change of stage keeps what is accepted under way, if the new stage is one of closing
  have hnext : ∀ stage, (.smtpOk run.current.id ∈ s.log → pastSmtp cfg run → pastSmtp cfg { run with stage }) →
      Delivered cfg s.table (some { run with stage }) s.log := by
    intro stage hpast
    refine h.delivered.move (.refl _) fun r hr hok hp => ?_
    obtain rfl : run = r := Option.some.inj (hrun.symm.trans hr)
    exact .inr ⟨_,rfl,rfl,hpast hok hp⟩
  have hout : ∀ message, outcome = .fault message → .smtpOk run.current.id ∈ s.log → toleratesFault cfg run = true :=
    fun message he hok => hguard message he (by simpa [accepted] using hok)
  obtain ⟨stage,current,rest⟩ := run
  cases stage with
  | resolve =>
    cases outcome with
    | ok =>
      refine serial_move h (hstay .smtp) ((hnext .smtp fun _ hp => hp).snoc _ (fun id he hc => ?_) (by simp))
      obtain rfl : current.id = id := by simpa using he
      rcases h.delivered.settled _ hc with ⟨y,hy,hst⟩ | ⟨r,hr,-,hpast⟩
      · obtain ⟨y',hy',-,hsend⟩ := sending_of_latest h.base hrun (holdsLatest_of_current h.current hrun)
        obtain rfl : y = y' := Option.some.inj (hy.symm.trans hy')
        rw [hsend] at hst
        exact absurd hst (by decide)
      · obtain rfl := Option.some.inj (hrun.symm.trans hr)
        exact hpast
    | fault message => exact serial_move h (hstay (.closeError message)) (hnext _ fun _ hp => hp.elim)
  | smtp =>
    cases outcome with
    | ok =>
      refine serial_move h (hstay .append) ((hnext .append fun _ hp => hp.elim).snoc _ (by simp) fun id he => ?_)
      obtain rfl : current.id = id := by simpa using he
      exact ⟨_,rfl,rfl,trivial⟩
    | fault message => exact serial_move h (hstay (.closeError message)) (hnext _ fun _ hp => hp.elim)
  | append =>
    cases outcome with
    | ok => exact serial_move h (hstay .bust) (hnext _ fun _ _ => trivial)
    | fault message => exact serial_move h (hstay .bust) (hnext _ fun _ _ => trivial)
  | bust =>
    cases outcome with
    | ok => exact serial_move h (hstay .closeSent) (hnext _ fun _ _ => trivial)
    | fault message =>
      refine serial_move h (hstay (.closeError message)) (hnext _ fun hok _ => ?_)
      change current.attempts ≥ cfg.maxAttempts
      simpa [toleratesFault] using hout message rfl hok
  | closeSent =>
    cases outcome with
    | ok => exact serial_close h hrun (sentRow_id s.now) (fun _ => rfl) hkeep (fun _ _ => .inl rfl) _ (by simp) (by simp)
    | fault message =>
      refine serial_move h (hstay (.closeError message)) (hnext _ fun hok _ => ?_)
      change current.attempts ≥ cfg.maxAttempts
      simpa [toleratesFault] using hout message rfl hok
  | closeError error =>
    cases outcome with
    | ok =>
      by_cases hmax : current.attempts ≥ cfg.maxAttempts
      · simp only [proceed,closeError,errorEvent,if_pos hmax] at hkeep ⊢
        exact serial_close h hrun (failedRow_id s.now error) (fun _ => rfl) hkeep (fun _ _ => .inr rfl) _
          (by simp) (by simp)
      · simp only [proceed,closeError,errorEvent,if_neg hmax] at hkeep ⊢
        exact serial_close h hrun (deferredRow_id cfg s.now error) (fun _ => rfl) hkeep (fun hp => absurd hp hmax) _
          (by simp) (by simp)
    | fault message =>
      refine serial_move h (List.nil_subset _) (h.delivered.move (.refl _) fun r hr hok _ => ?_)
      obtain rfl := Option.some.inj (hrun.symm.trans hr)
      exact absurd (hout message rfl hok) (by simp [toleratesFault])

/-- Every allowed step of the worker keeps its invariant. -/
theorem serial_step (h : SerialInvariant cfg w s) {a : SendAction} (ha : SerialSafely cfg w s a)
    (hstep : step cfg s a = some t) : SerialInvariant cfg w t := by
  obtain ⟨hbase,hkeep⟩ := step_sound h.base (onLatestClaim_of_serial h.current ha.1) hstep
  have hsame : ∀ run : Option SendRun, s.runs w = run → Delivered cfg t.table run s.log := by
    rintro run rfl
    exact h.delivered.move hkeep fun r hr _ hp => .inr ⟨r,hr,rfl,hp⟩
  suffices hserial : Serial cfg w t from ⟨hbase,hserial.1,hserial.2⟩
  cases a with
  | wait seconds =>
    cases hstep
    exact ⟨h.current,h.delivered⟩
  | send id orgId mailboxId sendAt =>
    simp only [step] at hstep
    split at hstep
    · rename_i hnew
      cases hstep
      exact ⟨h.current.insert _ hnew,hsame _ rfl⟩
    · simp at hstep
  | cancel id orgId mailboxId =>
    cases hstep
    unfold cancelScheduledSend at hsame ⊢
    split at hsame
    · rename_i hany
      rw [if_pos hany]
      exact ⟨h.current.update _ (cancelRow_id s.now) fun _ => rfl,(hsame _ rfl).snoc _ (by simp) (by simp)⟩
    · rename_i hany
      rw [if_neg hany]
      exact ⟨h.current,h.delivered⟩
  | claim r ids =>
    obtain rfl : r = w := ha.1
    simp only [step] at hstep
    split at hstep
    · rename_i hsel
      cases hstep
      refine ⟨?_,?_⟩
      · rw [heldBy_setRun,if_pos rfl,held_nextRow]
        exact upToDate_claim s.now ids
      · change Delivered cfg _ (setRun s.runs r _ r) s.log
        rw [setRun_self]
        exact (hsame none hsel.1).move (.refl _) fun r hr => absurd hr (by simp)
    · simp at hstep
  | proceed r outcome =>
    obtain rfl : r = w := ha.1
    obtain ⟨run,hrun,rfl⟩ := Option.map_eq_some_iff.mp hstep
    refine serial_proceed h hrun outcome hkeep fun message he hacc => ?_
    subst he
    exact ha.2 run hrun hacc
  | crash r => exact ha.1.elim

end Steps

section Runs
variable {cfg : SendConfig} {w : Uuid} {now : Nat} {s : SendState}

theorem SerialInvariant.initial (cfg : SendConfig) (w : Uuid) (now : Nat) : SerialInvariant cfg w (.initial now) where
  base := .initial now
  current := fun _ hx => absurd hx List.not_mem_nil
  delivered := ⟨fun _ h => absurd h List.not_mem_nil,fun _ _ _ h => by simp [SendState.initial] at h⟩

/-- Along every run of a single worker in which no failure after an accepted `sendMail`
re-queues its row, a row whose `sendMail` has resolved is not sent again. -/
theorem accepted_sent_once (hs : Run (step cfg) (SerialSafely cfg w) (.initial now) s) :
    ∀ id pre post, s.log = pre ++ .smtpOk id :: post → .smtpStart id ∉ post :=
  (hs.invariant (fun _ _ _ h ha hstep => serial_step h ha hstep) (.initial cfg w now)).delivered.once

/-- The append to Sent fails, and so does a bust on the last attempt. -/
def exhaustedActions : List SendAction :=
  [.send 1 7 8 0,.claim 0 [1],.proceed 0 .ok,.proceed 0 .ok,.proceed 0 (.fault (js "imap")),
    .proceed 0 (.fault (js "redis")),.proceed 0 .ok,.wait 1000,.claim 0 []]

theorem exhausted_sent_once :
    ∃ s, Run (step ⟨60,30,1⟩) (SerialSafely ⟨60,30,1⟩ 0) (.initial 0) s ∧ s.now = 1000 ∧
      s.log = [.smtpStart 1,.smtpOk 1,.mailBounced 1 1 (js "redis")] ∧
      ∀ id pre post, s.log = pre ++ .smtpOk id :: post → .smtpStart id ∉ post := by
  have hrun : ((runActions (step ⟨60,30,1⟩) (SerialSafely ⟨60,30,1⟩ 0) (.initial 0) exhaustedActions).map fun s =>
      (s.now,s.log)) = some (1000,[.smtpStart 1,.smtpOk 1,.mailBounced 1 1 (js "redis")]) := by decide +kernel
  obtain ⟨s,hs,hview⟩ := Option.map_eq_some_iff.mp hrun
  obtain ⟨hnow,hlog⟩ := Prod.mk.inj hview
  have hsafe : Run (step ⟨60,30,1⟩) (SerialSafely ⟨60,30,1⟩ 0) (.initial 0) s := .of_actions hs
  exact ⟨s,hsafe,hnow,hlog,accepted_sent_once hsafe⟩

/-- The cache bust fails after an accepted message, and the next tick finds the row due. -/
def bustFaultActions : List SendAction :=
  [.send 1 7 8 0,.claim 0 [1],.proceed 0 .ok,.proceed 0 .ok,.proceed 0 .ok,.proceed 0 (.fault (js "redis")),
    .proceed 0 .ok,.wait 100,.claim 0 [1],.proceed 0 .ok]

theorem bust_fault_sends_twice :
    ∃ s, Run (step exampleConfig) (fun _ a => SingleWorker 0 a) (.initial 0) s ∧
      ∃ pre post, s.log = pre ++ .smtpOk 1 :: post ∧ .smtpStart 1 ∈ post := by
  have hrun : ((runActions (step exampleConfig) (fun _ a => SingleWorker 0 a) (.initial 0) bustFaultActions).map
      fun s => s.log) =
      some [.smtpStart 1,.smtpOk 1,.mailDeferred 1 1 (js "redis"),.smtpStart 1] := by decide +kernel
  obtain ⟨s,hs,hlog⟩ := Option.map_eq_some_iff.mp hrun
  exact ⟨s,.of_actions hs,[.smtpStart 1],[.mailDeferred 1 1 (js "redis"),.smtpStart 1],hlog,by simp⟩

end Runs

end JustMail.Webmail
