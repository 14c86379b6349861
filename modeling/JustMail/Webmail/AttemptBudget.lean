import JustMail.Webmail.SendOnce

/-! How often one worker, which may crash and be started again, dispatches a row of
`scheduled_sends`, and the bound that is to be put on that. -/
namespace JustMail.Webmail
open Foundation

section Model

/-- The sends, with the id of each row that `dispatchScheduled` has been called on. -/
structure BudgetState where
  sends : SendState
  starts : List Uuid

def BudgetState.initial (now : Nat) : BudgetState := ⟨.initial now,[]⟩

/-- The row of the loop's turn, when that turn is at its beginning. -/
def turnStarted : Option SendRun → List Uuid
  | some ⟨.resolve,row,_⟩ => [row.id]
  | _ => []

/-- A claim and an operation that ends a turn call `dispatchScheduled` on the next row. -/
def startedBy (t : SendState) : SendAction → List Uuid
  | .claim r _ | .proceed r _ => turnStarted (t.runs r)
  | .wait _ | .send .. | .cancel .. | .crash _ => []

variable (cfg : SendConfig)

def budgetStep (s : BudgetState) (a : SendAction) : Option BudgetState :=
  (step cfg s.sends a).map fun t => ⟨t,s.starts ++ startedBy t a⟩

/-- One worker at a time: `w` claims again when its run is over, or has been lost in a crash. -/
def OneWorker (w : Uuid) : SendAction → Prop
  | .claim r _ | .proceed r _ | .crash r => r = w
  | .wait _ | .send .. | .cancel .. => True

def Stage.recordsError : Stage → Bool
  | .closeError _ => true
  | .resolve | .smtp | .append | .bust | .closeSent => false

/-- A run does not come to a stop, by a crash or by an error that is not recorded, on a row that has had
all its attempts. -/
def StopsInBudget (s : BudgetState) : SendAction → Prop
  | .crash r => ∀ run ∈ s.sends.runs r, s.starts.count run.current.id < cfg.maxAttempts
  | .proceed r (.fault _) => ∀ run ∈ s.sends.runs r, run.stage.recordsError = true → s.starts.count run.current.id < cfg.maxAttempts
  | _ => True

instance (w : Uuid) (a : SendAction) : Decidable (OneWorker w a) :=
  match a with
  | .claim r _ | .proceed r _ | .crash r => inferInstanceAs (Decidable (r = w))
  | .wait _ | .send .. | .cancel .. => inferInstanceAs (Decidable True)

instance (s : BudgetState) (a : SendAction) : Decidable (StopsInBudget cfg s a) :=
  match a with
  | .crash _ | .proceed _ (.fault _) => inferInstanceAs (Decidable (∀ _ ∈ _, _))
  | .proceed _ .ok | .wait _ | .send .. | .cancel .. | .claim .. => inferInstanceAs (Decidable True)

end Model

def ScheduledSendRow.closed (row : ScheduledSendRow) : Prop := row.status = .sent ∨ row.status = .failed

/-- What holds of a table, of the row that is being dispatched and of those that wait for their turn: a row that
waits has an attempt left, and so has one that is not held, unless it is done with. -/
structure Budget (cfg : SendConfig) (table : SendTable) (starts : List Uuid) (current : Option ScheduledSendRow)
    (rest : List ScheduledSendRow) : Prop where
  absent : ∀ id, table.lookup id = none → starts.count id = 0
  counted : ∀ id row, table.lookup id = some row → starts.count id ≤ row.attempts
  bounded : ∀ id, starts.count id ≤ cfg.maxAttempts
  waits : ∀ row ∈ rest, starts.count row.id < cfg.maxAttempts ∧ starts.count row.id < row.attempts
  distinct : ((current.toList ++ rest).map (·.id)).Nodup
  upToDate : UpToDate table (current.toList ++ rest)
  free : ∀ id row, table.lookup id = some row → id ∉ (current.toList ++ rest).map (·.id) →
    row.closed ∨ starts.count id < cfg.maxAttempts

section Operations
variable {cfg : SendConfig} {table : SendTable} {starts : List Uuid} {current : Option ScheduledSendRow}
  {row : ScheduledSendRow} {rest : List ScheduledSendRow}

theorem Budget.initial (cfg : SendConfig) (now : Nat) : Budget cfg (SendState.initial now).table [] none [] where
  absent _ _ := List.count_nil
  counted _ _ h := absurd h nofun
  bounded _ := by simp
  waits _ h := absurd h List.not_mem_nil
  distinct := List.nodup_nil
  upToDate _ h := absurd h List.not_mem_nil
  free _ _ h := absurd h nofun

/-- The first of the rows that wait has its turn. -/
theorem Budget.turn (h : Budget cfg table starts none (row :: rest)) : Budget cfg table (starts ++ [row.id]) (some row) rest := by
  have hcount : ∀ id, (starts ++ [row.id]).count id = starts.count id + if row.id = id then 1 else 0 := by
    intro id
    rw [List.count_append,List.count_singleton]
    simp only [beq_iff_eq]
  obtain ⟨hroom,hfewer⟩ := h.waits row List.mem_cons_self
  obtain ⟨y,hy,hattempts⟩ := h.upToDate row List.mem_cons_self
  have hother : ∀ id, row.id ≠ id → (starts ++ [row.id]).count id = starts.count id := fun id hne => by
    rw [hcount,if_neg hne,Nat.add_zero]
  refine ⟨?_,?_,?_,?_,h.distinct,h.upToDate,?_⟩
  · intro id hid
    rw [hother id (by rintro rfl; rw [hy] at hid; exact absurd hid nofun)]
    exact h.absent id hid
  · intro id y' hy'
    rw [hcount]
    split
    · rename_i hid
      subst hid
      obtain rfl := Option.some.inj (hy.symm.trans hy')
      omega
    · exact h.counted id y' hy'
  · intro id
    rw [hcount]
    split
    · rename_i hid
      subst hid
      omega
    · exact h.bounded id
  · intro row' hrow'
    have hne : row.id ≠ row'.id := fun he =>
      (List.nodup_cons.mp h.distinct).1 (List.mem_map.mpr ⟨row',hrow',he.symm⟩)
    rw [hother row'.id hne]
    exact h.waits row' (List.mem_cons_of_mem _ hrow')
  · intro id y' hy' hid
    have hne : row.id ≠ id := fun he => hid (List.mem_map.mpr ⟨row,List.mem_cons_self,he⟩)
    rw [hother id hne]
    exact h.free id y' hy' hid

/-- The rows are let go before their attempt is over. -/
theorem Budget.stop (h : Budget cfg table starts (some row) rest) (hroom : starts.count row.id < cfg.maxAttempts) :
    Budget cfg table starts none [] := by
  refine ⟨h.absent,h.counted,h.bounded,fun _ hx => absurd hx List.not_mem_nil,List.nodup_nil,fun _ hx => absurd hx List.not_mem_nil,?_⟩
  intro id y hy _
  by_cases hheld : id ∈ (some row).toList.map (·.id) ++ rest.map (·.id)
  · right
    rcases List.mem_append.mp hheld with hcur | hrest
    · obtain rfl : id = row.id := by simpa using hcur
      exact hroom
    · obtain ⟨x,hx,rfl⟩ := List.mem_map.mp hrest
      exact (h.waits x hx).1
  · exact h.free id y hy (by rwa [List.map_append])

/-- An update that leaves the attempts alone. Rows may be let go with it. -/
theorem Budget.update {current' : Option ScheduledSendRow} {rest' : List ScheduledSendRow} (h : Budget cfg table starts current rest)
    (p : ScheduledSendRow → Bool) {f : ScheduledSendRow → ScheduledSendRow} (hid : ∀ y, (f y).id = y.id)
    (hf : ∀ y, (f y).attempts = y.attempts) (hheld : (current'.toList ++ rest').Sublist (current.toList ++ rest)) (hrest : rest' ⊆ rest)
    (hfree : ∀ id y, table.lookup id = some y → id ∉ (current'.toList ++ rest').map (·.id) →
      (if p y then f y else y).closed ∨ starts.count id < cfg.maxAttempts) :
    Budget cfg (table.updateWhere p f hid) starts current' rest' := by
  have hold : ∀ id y', (table.updateWhere p f hid).lookup id = some y' → ∃ y, table.lookup id = some y ∧
    (if p y then f y else y) = y' := by
    intro id y' hy'
    rw [Table.lookup_updateWhere] at hy'
    exact Option.map_eq_some_iff.mp hy'
  refine ⟨?_,?_,h.bounded,fun x hx => h.waits x (hrest hx),h.distinct.sublist (hheld.map _),
    (h.upToDate.release hheld.subset).update p hid hf,?_⟩
  · intro id hnone
    rw [Table.lookup_updateWhere,Option.map_eq_none_iff] at hnone
    exact h.absent id hnone
  · intro id y' hy'
    obtain ⟨y,hy,rfl⟩ := hold id y' hy'
    have hsame : (if p y then f y else y).attempts = y.attempts := by
      split
      · exact hf y
      · rfl
    rw [hsame]
    exact h.counted id y hy
  · intro id y' hy' hnot
    obtain ⟨y,hy,rfl⟩ := hold id y' hy'
    exact hfree id y hy hnot

theorem Budget.insert (h : Budget cfg table starts current rest) (hmax : 0 < cfg.maxAttempts) (hnew : table.lookup row.id = none) :
    Budget cfg (table.insert row hnew) starts current rest := by
  have hzero : starts.count row.id = 0 := h.absent row.id hnew
  refine ⟨?_,?_,h.bounded,h.waits,h.distinct,h.upToDate.insert row hnew,?_⟩
  · intro id hnone
    rw [Table.lookup_insert] at hnone
    split at hnone
    · exact absurd hnone nofun
    · exact h.absent id hnone
  · intro id y hy
    rw [Table.lookup_insert] at hy
    split at hy
    · rename_i hid
      rw [hid,hzero]
      exact Nat.zero_le _
    · exact h.counted id y hy
  · intro id y hy hnot
    rw [Table.lookup_insert] at hy
    split at hy
    · rename_i hid
      rw [hid,hzero]
      exact .inr hmax
    · exact h.free id y hy hnot

theorem Budget.cancel (h : Budget cfg table starts current rest) (p : ScheduledSendRow → Bool) (now : Nat)
    (hp : ∀ y, p y = true → y.status = .pending) :
    Budget cfg (table.updateWhere p (cancelRow now) (cancelRow_id now)) starts current rest := by
  refine h.update p (cancelRow_id now) (fun _ => rfl) (List.Sublist.refl _) (List.Subset.refl _) fun id y hy hnot => ?_
  have hfree := h.free id y hy hnot
  split
  · rename_i hhit
    have hpending := hp y hhit
    exact .inr (hfree.resolve_left fun hclosed => by rcases hclosed with hst | hst <;> simp [hpending] at hst)
  · exact hfree

theorem Budget.close (h : Budget cfg table starts (some row) rest) {f : ScheduledSendRow → ScheduledSendRow} (hid : ∀ y, (f y).id = y.id)
    (hf : ∀ y, (f y).attempts = y.attempts) (hclose : ∀ y, (f y).closed ∨ starts.count row.id < cfg.maxAttempts) :
    Budget cfg (table.updateWhere (·.id == row.id) f hid) starts none rest := by
  refine h.update _ hid hf (List.sublist_cons_self row rest) (List.Subset.refl _) fun id y hy hnot => ?_
  have hyid : y.id = id := Table.key_of_lookup hy
  by_cases hcur : id = row.id
  · rw [if_pos (by simpa using hyid.trans hcur),hcur]
    exact hclose y
  · rw [if_neg (by simpa [hyid] using hcur)]
    exact h.free id y hy fun hmem => (List.mem_cons.mp hmem).elim hcur hnot

/-- What is due is not done with, and has an attempt left. -/
theorem Budget.room (h : Budget cfg table starts none []) {now : Nat} {ids : List Uuid} (hsel : Selects cfg now table ids) :
    ∀ id ∈ ids, starts.count id < cfg.maxAttempts := by
  intro id hmem
  have hdue := hsel.2.1 id hmem
  cases hy : table.lookup id with
  | none => simp [hy] at hdue
  | some y =>
    rw [hy,Option.any_some] at hdue
    refine (h.free id y hy List.not_mem_nil).resolve_left fun hclosed => ?_
    rcases hclosed with hst | hst <;> simp [due,hst] at hdue

theorem Budget.claim (h : Budget cfg table starts none []) {now : Nat} {ids : List Uuid} (hsel : Selects cfg now table ids) :
    Budget cfg (claimRows now table ids) starts none (ids.filterMap (claimRows now table ids).lookup) := by
  refine ⟨?_,?_,h.bounded,?_,hsel.1.sublist (Table.keys_filterMap_lookup _ ids),upToDate_claim now ids,?_⟩
  · intro id hnone
    rw [lookup_claimRows,Option.map_eq_none_iff] at hnone
    exact h.absent id hnone
  · intro id y' hy'
    rw [lookup_claimRows] at hy'
    obtain ⟨y,hy,rfl⟩ := Option.map_eq_some_iff.mp hy'
    have hle := h.counted id y hy
    split
    · exact hle.trans (Nat.le_succ _)
    · exact hle
  · intro x hx
    obtain ⟨hmem,y,hy,rfl⟩ := claimed_row hx
    exact ⟨h.room hsel _ hmem,Nat.lt_succ_of_le (h.counted _ y hy)⟩
  · intro id y' hy' hnot
    have hout : id ∉ ids := fun hmem => hnot (List.mem_map.mpr ⟨y',List.mem_filterMap.mpr ⟨id,hmem,hy'⟩,Table.key_of_lookup hy'⟩)
    rw [lookup_claimRows] at hy'
    obtain ⟨y,hy,rfl⟩ := Option.map_eq_some_iff.mp hy'
    rw [if_neg hout]
    exact h.free id y hy List.not_mem_nil

/-- The loop goes on with the rows that wait. -/
theorem Budget.next (h : Budget cfg table starts none rest) :
    Budget cfg table (starts ++ turnStarted (nextRow rest)) ((nextRow rest).map (·.current)) (((nextRow rest).map (·.rest)).getD []) := by
  cases rest with
  | nil =>
    rw [nextRow,turnStarted,List.append_nil]
    · exact h
    · exact nofun
  | cons row rest => exact h.turn

end Operations

section Steps
variable {cfg : SendConfig} {w : Uuid} {s t : BudgetState} {run : SendRun}

def BudgetKept (cfg : SendConfig) (w : Uuid) (s : BudgetState) : Prop :=
  Budget cfg s.sends.table s.starts ((s.sends.runs w).map (·.current)) (((s.sends.runs w).map (·.rest)).getD [])

private theorem heldBy_eq (s : SendState) (w : Uuid) :
    s.heldBy w = ((s.runs w).map (·.current)).toList ++ ((s.runs w).map (·.rest)).getD [] := by
  rw [SendState.heldBy]
  cases s.runs w <;> rfl

private theorem kept_of_run (h : BudgetKept cfg w s) (hrun : s.sends.runs w = some run) :
    Budget cfg s.sends.table s.starts (some run.current) run.rest := by
  rw [BudgetKept,hrun] at h
  exact h

private theorem kept_stage (h : BudgetKept cfg w s) (hrun : s.sends.runs w = some run) {stage : Stage} (hstage : stage ≠ .resolve)
    (log : List SendEvent) :
    BudgetKept cfg w ⟨{ s.sends with runs := setRun s.sends.runs w (some { run with stage }), log },
      s.starts ++ turnStarted (setRun s.sends.runs w (some { run with stage }) w)⟩ := by
  have hnone : turnStarted (some { run with stage }) = [] := by
    cases stage <;> first | rfl | exact absurd rfl hstage
  unfold BudgetKept
  dsimp only
  rw [setRun_self,hnone,List.append_nil]
  have hheld := kept_of_run h hrun
  exact hheld

/-- The next turn, after an update that ends the attempt. -/
private theorem kept_next {table : SendTable} {rest : List ScheduledSendRow} (h : Budget cfg table s.starts none rest)
    (log : List SendEvent) :
    BudgetKept cfg w ⟨{ s.sends with table, runs := setRun s.sends.runs w (nextRow rest), log },
      s.starts ++ turnStarted (setRun s.sends.runs w (nextRow rest) w)⟩ := by
  unfold BudgetKept
  dsimp only
  rw [setRun_self]
  exact h.next

private theorem kept_stop (h : BudgetKept cfg w s) (hrun : s.sends.runs w = some run)
    (hroom : s.starts.count run.current.id < cfg.maxAttempts) :
    BudgetKept cfg w ⟨{ s.sends with runs := setRun s.sends.runs w none },s.starts⟩ := by
  unfold BudgetKept
  dsimp only
  rw [setRun_self]
  exact (kept_of_run h hrun).stop hroom

private theorem kept_proceed (h : BudgetKept cfg w s) (hrun : s.sends.runs w = some run) (outcome : Outcome)
    (hstop : ∀ message, outcome = .fault message → run.stage.recordsError = true → s.starts.count run.current.id < cfg.maxAttempts) :
    BudgetKept cfg w ⟨proceed cfg s.sends w run outcome,s.starts ++ turnStarted ((proceed cfg s.sends w run outcome).runs w)⟩ := by
  have hheld := kept_of_run h hrun
  obtain ⟨stage,current,rest⟩ := run
  cases stage with
  | resolve =>
    cases outcome with
    | ok => exact kept_stage h hrun (by decide) _
    | fault message => exact kept_stage h hrun (by simp) _
  | smtp =>
    cases outcome with
    | ok => exact kept_stage h hrun (by decide) _
    | fault message => exact kept_stage h hrun (by simp) _
  | append => cases outcome <;> exact kept_stage h hrun (by decide) _
  | bust =>
    cases outcome with
    | ok => exact kept_stage h hrun (by decide) _
    | fault message => exact kept_stage h hrun (by simp) _
  | closeSent =>
    cases outcome with
    | ok => exact kept_next (hheld.close (sentRow_id s.sends.now) (fun _ => rfl) fun _ => .inl (.inl rfl)) _
    | fault message => exact kept_stage h hrun (by simp) _
  | closeError error =>
    cases outcome with
    | ok =>
      simp only [proceed,closeError]
      split
      · exact kept_next (hheld.close (failedRow_id s.sends.now error) (fun _ => rfl) fun _ => .inl (.inr rfl)) _
      · rename_i hmax
        obtain ⟨y,hy,hattempts⟩ := hheld.upToDate current List.mem_cons_self
        have hcounted : s.starts.count current.id ≤ y.attempts := hheld.counted current.id y hy
        have hroom : s.starts.count current.id < cfg.maxAttempts := by omega
        exact kept_next (hheld.close (deferredRow_id cfg s.sends.now error) (fun _ => rfl) fun _ => .inr hroom) _
    | fault message =>
      have hnone : turnStarted ((proceed cfg s.sends w ⟨.closeError error,current,rest⟩ (.fault message)).runs w) = [] := by
        simp only [proceed,setRun_self]
        rfl
      rw [hnone,List.append_nil]
      exact kept_stop h hrun (hstop message rfl rfl)

/-- Every step of the worker keeps the budget, if it does not stop on a row that has had all its attempts. -/
theorem budgetKept_step (hmax : 0 < cfg.maxAttempts) (h : BudgetKept cfg w s) {a : SendAction}
    (ha : OneWorker w a ∧ StopsInBudget cfg s a) (hstep : budgetStep cfg s a = some t) : BudgetKept cfg w t := by
  obtain ⟨sends,hsends,rfl⟩ := Option.map_eq_some_iff.mp hstep
  cases a with
  | wait seconds =>
    cases hsends
    rw [startedBy,List.append_nil]
    exact h
  | send id orgId mailboxId sendAt =>
    rw [startedBy,List.append_nil]
    simp only [step] at hsends
    split at hsends
    · rename_i hnew
      cases hsends
      exact h.insert hmax hnew
    · simp at hsends
  | cancel id orgId mailboxId =>
    cases hsends
    rw [startedBy,List.append_nil,cancelScheduledSend]
    split
    · exact h.cancel _ s.sends.now fun y hy => by
        simp only [cancellable,Bool.and_eq_true,beq_iff_eq] at hy
        exact hy.2
    · exact h
  | claim r ids =>
    obtain rfl : r = w := ha.1
    simp only [step] at hsends
    split at hsends
    · rename_i hsel
      cases hsends
      rw [BudgetKept,hsel.1] at h
      exact kept_next (h.claim hsel.2) s.sends.log
    · simp at hsends
  | proceed r outcome =>
    obtain rfl : r = w := ha.1
    obtain ⟨run,hrun,rfl⟩ := Option.map_eq_some_iff.mp hsends
    refine kept_proceed h hrun outcome fun message he hrecords => ?_
    subst he
    exact ha.2 run hrun hrecords
  | crash r =>
    obtain rfl : r = w := ha.1
    simp only [step] at hsends
    split at hsends
    · rename_i hsome
      obtain ⟨run,hrun⟩ := Option.isSome_iff_exists.mp hsome
      cases hsends
      rw [startedBy,List.append_nil]
      exact kept_stop h hrun (ha.2 run hrun)
    · simp at hsends

/-- Along every run of one worker that does not stop on a row that has had all its attempts, a row is dispatched no
more often than it has attempts. A row that has had them is closed once it is let go, and is not claimed again. -/
theorem attempts_within_budget (hmax : 0 < cfg.maxAttempts) {now : Nat}
    (hrun : Run (budgetStep cfg) (fun s a => OneWorker w a ∧ StopsInBudget cfg s a) (.initial now) s) (id : Uuid) :
    s.starts.count id ≤ cfg.maxAttempts ∧
    (s.starts.count id = cfg.maxAttempts →
      (id ∉ (s.sends.heldBy w).map (·.id) → ∃ row, s.sends.table.lookup id = some row ∧ (row.status = .sent ∨ row.status = .failed)) ∧
      ∀ ids t, budgetStep cfg s (.claim w ids) = some t → id ∉ ids) := by
  have h : BudgetKept cfg w s := hrun.invariant (fun _ _ _ h ha hstep => budgetKept_step hmax h ha hstep) (Budget.initial cfg now)
  refine ⟨h.bounded id,fun hspent => ⟨fun hlet => ?_,fun ids t hstep hmem => ?_⟩⟩
  · cases hrow : s.sends.table.lookup id with
    | none =>
      have hzero := h.absent id hrow
      omega
    | some row =>
      refine ⟨row,rfl,(h.free id row hrow ?_).resolve_right (by omega)⟩
      rwa [← heldBy_eq]
  · obtain ⟨sends,hsends,-⟩ := Option.map_eq_some_iff.mp hstep
    simp only [step] at hsends
    split at hsends
    · rename_i hsel
      rw [BudgetKept,hsel.1] at h
      have hroom := h.room hsel.2 id hmem
      omega
    · simp at hsends

def singleAttempt : SendConfig := ⟨60,30,1⟩

/-- The only attempt fails, and the error is recorded. -/
def refusedActions : List SendAction := [.send 1 7 8 0,.claim 0 [1],.proceed 0 .ok,.proceed 0 (.fault (js "refused")),.proceed 0 .ok]

theorem refused_once : ∃ s, Run (budgetStep singleAttempt) (fun s a => OneWorker 0 a ∧ StopsInBudget singleAttempt s a) (.initial 0) s ∧
    s.starts.count 1 = 1 ∧ (∃ row, s.sends.table.lookup 1 = some row ∧ (row.status = .sent ∨ row.status = .failed)) ∧
    ∀ ids t, budgetStep singleAttempt s (.claim 0 ids) = some t → 1 ∉ ids := by
  have hview : ((runActions (budgetStep singleAttempt) (fun s a => OneWorker 0 a ∧ StopsInBudget singleAttempt s a) (.initial 0)
    refusedActions).map
      fun s => (s.starts.count 1,(s.sends.heldBy 0).map (·.id))) = some (1,[]) := by decide +kernel
  obtain ⟨s,hs,hpair⟩ := Option.map_eq_some_iff.mp hview
  obtain ⟨hcount,hheld⟩ := Prod.mk.inj hpair
  have hrun := Run.of_actions hs
  obtain ⟨hclosed,hclaims⟩ := (attempts_within_budget (by decide) hrun 1).2 hcount
  exact ⟨s,hrun,hcount,hclosed (by rw [hheld]; exact List.not_mem_nil),hclaims⟩

/-- The worker crashes in its only attempt. The claim is stale after a minute, and the row is dispatched again. -/
def crashedActions : List SendAction := [.send 1 7 8 0,.claim 0 [1],.proceed 0 .ok,.crash 0,.wait 61,.claim 0 [1],.proceed 0 .ok]

theorem crash_exceeds_budget :
    ¬∀ (cfg : SendConfig) (w now : Nat) (s : BudgetState), 0 < cfg.maxAttempts →
      Run (budgetStep cfg) (fun _ a => OneWorker w a) (.initial now) s → ∀ id, s.starts.count id ≤ cfg.maxAttempts := by
  intro h
  have hview : ((runActions (budgetStep singleAttempt) (fun _ a => OneWorker 0 a) (.initial 0) crashedActions).map
      fun s => s.starts.count 1) = some 2 := by decide +kernel
  obtain ⟨s,hs,hcount⟩ := Option.map_eq_some_iff.mp hview
  have hle := h singleAttempt 0 0 s (by decide) (.of_actions hs) 1
  rw [hcount] at hle
  exact absurd hle (by decide)

end Steps
end JustMail.Webmail
