import JustMail.Webmail.ScheduledSends

/-! What holds of every scheduled send while any number of dispatch runs, cancels and
timeouts interleave. -/
namespace JustMail.Webmail
open Foundation

/-- The claimed rows a run has not closed. -/
def SendState.heldBy (s : SendState) (r : Uuid) : List ScheduledSendRow := ((s.runs r).map (·.held)).getD []

theorem heldBy_of_run {s : SendState} {r : Uuid} {run : SendRun} (h : s.runs r = some run) : s.heldBy r = run.held := by
  simp [SendState.heldBy,h]

theorem heldBy_setRun (s : SendState) (r : Uuid) (run : Option SendRun) (now : Nat) (table : SendTable)
    (log : List SendEvent) (q : Uuid) :
    SendState.heldBy ⟨now,table,setRun s.runs r run,log⟩ q =
      if q = r then (run.map (·.held)).getD [] else s.heldBy q := by
  simp only [SendState.heldBy,setRun]
  split <;> rfl

theorem held_nextRow (rows : List ScheduledSendRow) : ((nextRow rows).map (·.held)).getD [] = rows := by
  cases rows <;> rfl

/-- Claims on the table: a held row is at most as new as its table row, and while it is
the newest the table row is still being sent; no claim is held twice. -/
structure Claims (table : SendTable) (held : Uuid → List ScheduledSendRow) : Prop where
  latest (r : Uuid) : ∀ x ∈ held r, ∃ y, table.lookup x.id = some y ∧ x.attempts ≤ y.attempts ∧
    (x.attempts = y.attempts → y.status = .sending)
  distinct (r : Uuid) : ((held r).map (·.id)).Nodup
  apart (r q : Uuid) : r ≠ q → ∀ x ∈ held r, ∀ x' ∈ held q, x.id = x'.id → x.attempts ≠ x'.attempts

section Claims
variable {table table' : SendTable} {held held' : Uuid → List ScheduledSendRow}

/-- Rows may be let go. -/
theorem Claims.release (h : Claims table held) (hsub : ∀ r, (held' r).Sublist (held r)) : Claims table held' where
  latest r x hx := h.latest r x ((hsub r).subset hx)
  distinct r := (h.distinct r).sublist ((hsub r).map _)
  apart r q hne x hx x' hx' := h.apart r q hne x ((hsub r).subset hx) x' ((hsub q).subset hx')

/-- The table may change as long as every held row keeps its standing. -/
theorem Claims.retable (h : Claims table held)
    (hkeep : ∀ r, ∀ x ∈ held r, ∀ y, table.lookup x.id = some y → ∃ y', table'.lookup x.id = some y' ∧
      y.attempts ≤ y'.attempts ∧ (x.attempts = y'.attempts → (x.attempts = y.attempts → y.status = .sending) →
        y'.status = .sending)) : Claims table' held where
  latest r x hx := by
    obtain ⟨y,hy,hle,hsend⟩ := h.latest r x hx
    obtain ⟨y',hy',hle',hsend'⟩ := hkeep r x hx y hy
    exact ⟨y',hy',hle.trans hle',fun he => hsend' he hsend⟩
  distinct := h.distinct
  apart := h.apart

end Claims

/-- Nothing is dispatched after a cancellation, and cancelled rows stay cancelled. -/
structure Cancels (table : SendTable) (log : List SendEvent) : Prop where
  status (id : Uuid) : .cancelled id ∈ log → ∃ y, table.lookup id = some y ∧ y.status = .cancelled
  quiet (id : Uuid) (pre post : List SendEvent) : log = pre ++ .cancelled id :: post → .smtpStart id ∉ post

structure SendInvariant (s : SendState) : Prop where
  claims : Claims s.table s.heldBy
  cancels : Cancels s.table s.log

/-- The step starts a `sendMail` or makes a closing update. -/
def SendRun.acts (run : SendRun) (outcome : Outcome) : Bool :=
  outcome == .ok && match run.stage with
    | .resolve | .closeSent | .closeError _ => true
    | .smtp | .append | .bust => false

/-- No later claim has been made on the run's current row. -/
def holdsLatest (s : SendState) (run : SendRun) : Bool :=
  (s.table.lookup run.current.id).any fun row => row.attempts == run.current.attempts

/-- A run starts a `sendMail` or closes an attempt only on its row's latest claim. -/
def OnLatestClaim (s : SendState) : SendAction → Prop
  | .proceed r outcome => ∀ run ∈ s.runs r, run.acts outcome = true → holdsLatest s run = true
  | _ => True

instance (s : SendState) (a : SendAction) : Decidable (OnLatestClaim s a) :=
  match a with
  | .proceed _ _ => inferInstanceAs (Decidable (∀ _ ∈ _, _))
  | .wait _ | .send .. | .cancel .. | .claim .. | .crash _ => inferInstanceAs (Decidable True)

/-- Rows in a terminal status keep it. -/
def KeepsTerminal (table table' : SendTable) : Prop :=
  ∀ id y, table.lookup id = some y → y.status.terminal = true → ∃ y', table'.lookup id = some y' ∧ y'.status = y.status

section Tables
variable {table table' table'' : SendTable}

theorem KeepsTerminal.refl (table : SendTable) : KeepsTerminal table table := fun _ y hy _ => ⟨y,hy,rfl⟩

theorem KeepsTerminal.trans (h : KeepsTerminal table table') (h' : KeepsTerminal table' table'') :
    KeepsTerminal table table'' := by
  intro id y hy hterm
  obtain ⟨y',hy',he⟩ := h id y hy hterm
  obtain ⟨y'',hy'',he'⟩ := h' id y' hy' (he ▸ hterm)
  exact ⟨y'',hy'',he'.trans he⟩

theorem keepsTerminal_insert (row : ScheduledSendRow) (h : table.lookup row.id = none) :
    KeepsTerminal table (table.insert row h) := by
  intro id y hy _
  refine ⟨y,?_,rfl⟩
  rw [Table.lookup_insert,if_neg,hy]
  rintro rfl
  rw [h] at hy
  exact absurd hy (by simp)

/-- An update that only reaches rows in motion. -/
theorem keepsTerminal_update {p : ScheduledSendRow → Bool} {f : ScheduledSendRow → ScheduledSendRow}
    {hf : ∀ r, (f r).id = r.id} (hp : ∀ id y, table.lookup id = some y → p y = true → y.status.terminal = false) :
    KeepsTerminal table (table.updateWhere p f hf) := by
  intro id y hy hterm
  refine ⟨y,?_,rfl⟩
  rw [Table.lookup_updateWhere,hy,Option.map_some,if_neg]
  intro hhit
  rw [hp id y hy hhit] at hterm
  exact absurd hterm (by decide)

end Tables

section Logs
variable {table table' : SendTable} {log : List SendEvent}

theorem snoc_split {pre post : List SendEvent} {e x : SendEvent} (h : log ++ [e] = pre ++ x :: post) :
    (post = [] ∧ e = x) ∨ ∃ post', post = post' ++ [e] ∧ log = pre ++ x :: post' := by
  rcases List.eq_nil_or_concat' post with rfl | ⟨post',last,rfl⟩
  · obtain ⟨-,he⟩ := List.append_inj' h rfl
    exact .inl ⟨rfl,by simpa using he⟩
  · have h' : log ++ [e] = (pre ++ x :: post') ++ [last] := by simpa using h
    obtain ⟨hlog,he⟩ := List.append_inj' h' rfl
    obtain rfl : e = last := by simpa using he
    exact .inr ⟨post',rfl,hlog⟩

theorem Cancels.retable (h : Cancels table log) (hkeep : KeepsTerminal table table') : Cancels table' log where
  status id hmem := by
    obtain ⟨y,hy,hc⟩ := h.status id hmem
    obtain ⟨y',hy',he⟩ := hkeep id y hy (by rw [hc]; rfl)
    exact ⟨y',hy',he.trans hc⟩
  quiet := h.quiet

/-- One more event: a dispatch of a row that is not cancelled, a cancellation of a row
that now is, or anything else. -/
theorem Cancels.snoc (h : Cancels table log) (e : SendEvent) (hstart : ∀ id, e = .smtpStart id → .cancelled id ∉ log)
    (hcancel : ∀ id, e = .cancelled id → ∃ y, table.lookup id = some y ∧ y.status = .cancelled) :
    Cancels table (log ++ [e]) where
  status id hmem := by
    rcases List.mem_append.mp hmem with hold | hnew
    · exact h.status id hold
    · exact hcancel id (List.mem_singleton.mp hnew).symm
  quiet id pre post hlog := by
    rcases snoc_split hlog with ⟨rfl,-⟩ | ⟨post',rfl,hold⟩
    · exact List.not_mem_nil
    · rw [List.mem_append,not_or]
      refine ⟨h.quiet id pre post' hold,fun hm => ?_⟩
      exact hstart id (List.mem_singleton.mp hm).symm (by rw [hold]; simp)

end Logs

section Operations
variable {cfg : SendConfig} {table : SendTable} {held : Uuid → List ScheduledSendRow} {ids : List Uuid}

theorem Claims.insert (h : Claims table held) (row : ScheduledSendRow) (hnew : table.lookup row.id = none) :
    Claims (table.insert row hnew) held := by
  refine h.retable fun r x _ y hy => ⟨y,?_,le_rfl,fun he hsend => hsend he⟩
  rw [Table.lookup_insert,if_neg,hy]
  intro he
  rw [he,hnew] at hy
  exact absurd hy (by simp)

/-- A cancellation reaches pending rows only, and no held claim is the latest there. -/
theorem Claims.cancel (h : Claims table held) (p : ScheduledSendRow → Bool) (now : Nat)
    (hp : ∀ y, p y = true → y.status = .pending) : Claims (table.updateWhere p (cancelRow now) (cancelRow_id now)) held := by
  refine h.retable fun r x hx y hy => ⟨if p y then cancelRow now y else y,?_,?_,?_⟩
  · rw [Table.lookup_updateWhere,hy,Option.map_some]
  · split <;> exact le_rfl
  · intro he hsend
    by_cases hhit : p y = true
    · rw [if_pos hhit] at he
      have := hsend he
      rw [hp y hhit] at this
      exact absurd this (by decide)
    · rw [if_neg hhit] at he ⊢
      exact hsend he

/-- Closing the latest claim on a row, which the closing run then lets go. -/
theorem Claims.close {x : ScheduledSendRow} {rest : List ScheduledSendRow} {r : Uuid} (h : Claims table held)
    (hheld : held r = x :: rest) {f : ScheduledSendRow → ScheduledSendRow} (hid : ∀ y, (f y).id = y.id)
    (hf : ∀ y, (f y).attempts = y.attempts)
    (hlatest : ∀ y, table.lookup x.id = some y → y.attempts = x.attempts) :
    Claims (table.updateWhere (·.id == x.id) f hid) fun q => if q = r then rest else held q := by
  have hrelease : Claims table fun q => if q = r then rest else held q := by
    refine h.release fun q => ?_
    split
    · subst q
      rw [hheld]
      exact List.sublist_cons_self x rest
    · exact List.Sublist.refl _
  refine hrelease.retable fun q z hz y hy => ⟨if y.id == x.id then f y else y,?_,?_,?_⟩
  · rw [Table.lookup_updateWhere,hy,Option.map_some]
  · split
    · exact (hf y).ge
    · exact le_rfl
  · intro he hsend
    have hyid := Table.key_of_lookup hy
    by_cases hx : y.id = x.id
    · -- the same row: a claim as new as this one would be this one
      exfalso
      rw [if_pos (by simpa using hx),hf] at he
      have hya : y.attempts = x.attempts := hlatest y (by rw [← hx,hyid]; exact hy)
      have hzx : z.id = x.id := hyid.symm.trans hx
      by_cases hq : q = r
      · subst q
        have hz' : z ∈ rest := by simpa using hz
        have hnodup := h.distinct r
        rw [hheld,List.map_cons,List.nodup_cons] at hnodup
        exact hnodup.1 (List.mem_map.mpr ⟨z,hz',hzx⟩)
      · have hz' : z ∈ held q := by simpa [hq] using hz
        exact h.apart q r hq z hz' x (by rw [hheld]; simp) hzx (he.trans hya)
    · rw [if_neg (by simpa using hx)] at he ⊢
      exact hsend he

theorem lookup_claimRows (now : Nat) (ids : List Uuid) (id : Uuid) :
    (claimRows now table ids).lookup id = (table.lookup id).map fun y => if id ∈ ids then claimRow now y else y := by
  rw [claimRows,Table.lookup_updateWhere]
  cases hy : table.lookup id with
  | none => rfl
  | some y => simp [Table.key_of_lookup hy]

theorem claimed_row {now : Nat} {x : ScheduledSendRow}
    (hx : x ∈ ids.filterMap (claimRows now table ids).lookup) :
    x.id ∈ ids ∧ ∃ y, table.lookup x.id = some y ∧ x = claimRow now y := by
  obtain ⟨id,hid,hlook⟩ := List.mem_filterMap.mp hx
  have hxid := Table.key_of_lookup hlook
  simp only [lookup_claimRows,hid,if_true] at hlook
  obtain ⟨y,hy,he⟩ := Option.map_eq_some_iff.mp hlook
  exact ⟨hxid ▸ hid,y,hxid ▸ hy,he.symm⟩

/-- A claim makes every older claim on its rows stale. -/
theorem Claims.claim (h : Claims table held) (r : Uuid) (now : Nat) (hids : ids.Nodup) :
    Claims (claimRows now table ids)
      fun q => if q = r then ids.filterMap (claimRows now table ids).lookup else held q where
  latest q x hx := by
    by_cases hq : q = r
    · have hx' : x ∈ ids.filterMap (claimRows now table ids).lookup := by simpa [hq] using hx
      obtain ⟨hid,y,hy,rfl⟩ := claimed_row hx'
      refine ⟨claimRow now y,?_,le_rfl,fun _ => rfl⟩
      rw [lookup_claimRows,hy,Option.map_some,if_pos hid]
    · have hx' : x ∈ held q := by simpa [hq] using hx
      obtain ⟨y,hy,hle,hsend⟩ := h.latest q x hx'
      refine ⟨if x.id ∈ ids then claimRow now y else y,?_,?_,?_⟩
      · rw [lookup_claimRows,hy]
        rfl
      · split
        · exact hle.trans (Nat.le_succ _)
        · exact hle
      · intro he
        split
        · rfl
        · rename_i hno
          exact hsend (by simpa [hno] using he)
  distinct q := by
    by_cases hq : q = r
    · simp only [hq,if_true]
      exact hids.sublist (Table.keys_filterMap_lookup _ ids)
    · simpa only [hq,if_false] using h.distinct q
  apart q p hne x hx x' hx' hid := by
    have hnew : ∀ z, z ∈ ids.filterMap (claimRows now table ids).lookup → ∀ p', ∀ w ∈ held p', z.id = w.id →
        w.attempts < z.attempts := by
      intro z hz p' w hw hzw
      obtain ⟨-,y,hy,rfl⟩ := claimed_row hz
      obtain ⟨y',hy',hle,-⟩ := h.latest p' w hw
      obtain rfl : y = y' := Option.some.inj (hy.symm.trans (hzw ▸ hy'))
      exact Nat.lt_succ_of_le hle
    by_cases hq : q = r
    · have hp : p ≠ r := fun he => hne (hq.trans he.symm)
      exact (hnew x (by simpa [hq] using hx) p x' (by simpa [hp] using hx') hid).ne'
    · by_cases hp : p = r
      · exact (hnew x' (by simpa [hp] using hx') q x (by simpa [hq] using hx) hid.symm).ne
      · exact h.apart q p hne x (by simpa [hq] using hx) x' (by simpa [hp] using hx') hid

theorem keepsTerminal_claim {now : Nat} (hsel : Selects cfg now table ids) :
    KeepsTerminal table (claimRows now table ids) := by
  refine keepsTerminal_update fun id y hy hhit => ?_
  have hid : y.id ∈ ids := by simpa using hhit
  have hdue := hsel.2.1 y.id hid
  rw [Table.lookup_of_mem (Table.lookup_eq_some.mp hy).1,Option.any_some] at hdue
  cases hst : y.status with
  | pending => rfl
  | sending => rfl
  | sent => simp [due,hst] at hdue
  | failed => simp [due,hst] at hdue
  | cancelled => simp [due,hst] at hdue

end Operations

section Steps
variable {cfg : SendConfig} {s t : SendState} {r : Uuid} {run : SendRun}

/-- What a step must leave behind. -/
private def Sound (s t : SendState) : Prop := SendInvariant t ∧ KeepsTerminal s.table t.table

private theorem sound_send (h : SendInvariant s) (row : ScheduledSendRow) (hnew : s.table.lookup row.id = none) :
    Sound s { s with table := s.table.insert row hnew } :=
  ⟨⟨h.claims.insert row hnew,h.cancels.retable (keepsTerminal_insert row hnew)⟩,keepsTerminal_insert row hnew⟩

private theorem sound_cancel (h : SendInvariant s) (id orgId mailboxId : Uuid) :
    Sound s (cancelScheduledSend s id orgId mailboxId) := by
  have hhit : ∀ y, cancellable id orgId mailboxId y = true → y.id = id ∧ y.status = .pending := by
    intro y hy
    simp only [cancellable,Bool.and_eq_true,beq_iff_eq] at hy
    exact ⟨hy.1.1.1,hy.2⟩
  unfold cancelScheduledSend
  split
  · rename_i hany
    have hkeep : KeepsTerminal s.table
        (s.table.updateWhere (cancellable id orgId mailboxId) (cancelRow s.now) (cancelRow_id s.now)) :=
      keepsTerminal_update fun _ y _ hy => by rw [(hhit y hy).2]; rfl
    refine ⟨⟨h.claims.cancel _ s.now fun y hy => (hhit y hy).2,(h.cancels.retable hkeep).snoc _ (by simp) ?_⟩,hkeep⟩
    intro id' he
    obtain rfl : id = id' := by simpa using he
    obtain ⟨row,hrow,hcan⟩ := List.any_eq_true.mp hany
    refine ⟨cancelRow s.now row,?_,rfl⟩
    rw [Table.lookup_updateWhere,← (hhit row hcan).1,Table.lookup_of_mem hrow,Option.map_some,(hhit row hcan).1,
      if_pos hcan]
  · exact ⟨h,.refl _⟩

private theorem sound_claim (h : SendInvariant s) {ids : List Uuid} (hsel : Selects cfg s.now s.table ids) :
    Sound s { s with
      table := claimRows s.now s.table ids
      runs := setRun s.runs r (nextRow (ids.filterMap (claimRows s.now s.table ids).lookup)) } := by
  have hkeep := keepsTerminal_claim hsel
  have hclaims := h.claims.claim r s.now hsel.1
  refine ⟨⟨hclaims.release fun q => ?_,h.cancels.retable hkeep⟩,hkeep⟩
  rw [heldBy_setRun,held_nextRow]

/-- A run moves on within its row, or is gone: nothing is claimed and no row changes. -/
private theorem sound_move (h : SendInvariant s) {run : Option SendRun} {log : List SendEvent}
    (hheld : ((run.map (·.held)).getD []).Sublist (s.heldBy r)) (hlog : Cancels s.table log) :
    Sound s { s with runs := setRun s.runs r run, log } := by
  refine ⟨⟨h.claims.release fun q => ?_,hlog⟩,.refl _⟩
  rw [heldBy_setRun]
  split
  · subst q
    exact hheld
  · exact List.Sublist.refl _

theorem sending_of_latest (h : SendInvariant s) (hrun : s.runs r = some run)
    (hlatest : holdsLatest s run = true) :
    ∃ y, s.table.lookup run.current.id = some y ∧ y.attempts = run.current.attempts ∧ y.status = .sending := by
  have hmem : run.current ∈ s.heldBy r := by
    rw [heldBy_of_run hrun]
    exact List.mem_cons_self
  obtain ⟨y,hy,-,hsend⟩ := h.claims.latest r run.current hmem
  have hsame : y.attempts = run.current.attempts := by
    rw [holdsLatest,hy,Option.any_some] at hlatest
    simpa using hlatest
  exact ⟨y,hy,hsame,hsend hsame.symm⟩

private theorem sound_close (h : SendInvariant s) (hrun : s.runs r = some run)
    (hlatest : holdsLatest s run = true) {f : ScheduledSendRow → ScheduledSendRow} (hid : ∀ y, (f y).id = y.id)
    (hf : ∀ y, (f y).attempts = y.attempts) {e : SendEvent} (hstart : ∀ id, e ≠ .smtpStart id)
    (hcancel : ∀ id, e ≠ .cancelled id) :
    Sound s { s with
      runs := setRun s.runs r (nextRow run.rest)
      table := s.table.updateWhere (·.id == run.current.id) f hid
      log := s.log ++ [e] } := by
  obtain ⟨y,hy,hsame,hsend⟩ := sending_of_latest h hrun hlatest
  have hkeep : KeepsTerminal s.table (s.table.updateWhere (·.id == run.current.id) f hid) := by
    refine keepsTerminal_update fun id z hz hhit => ?_
    have hzid : z.id = run.current.id := by simpa using hhit
    have hzy : s.table.lookup run.current.id = some z := hzid ▸ Table.lookup_of_mem (Table.lookup_eq_some.mp hz).1
    obtain rfl : y = z := Option.some.inj (hy.symm.trans hzy)
    rw [hsend]
    rfl
  have hclaims := h.claims.close (heldBy_of_run hrun) hid hf fun z hz => by
    obtain rfl : y = z := Option.some.inj (hy.symm.trans hz)
    exact hsame
  refine ⟨⟨hclaims.release fun q => ?_,?_⟩,hkeep⟩
  · rw [heldBy_setRun,held_nextRow]
  · exact (h.cancels.retable hkeep).snoc e (fun id he => absurd he (hstart id)) fun id he => absurd he (hcancel id)

private theorem sound_proceed (h : SendInvariant s) (hrun : s.runs r = some run)
    (outcome : Outcome) (hguard : run.acts outcome = true → holdsLatest s run = true) :
    Sound s (proceed cfg s r run outcome) := by
  have hstay : ∀ stage, (((some { run with stage }).map SendRun.held).getD []).Sublist (s.heldBy r) := by
    intro stage
    rw [heldBy_of_run hrun]
    exact List.Sublist.refl _
  have hgone : ((none : Option SendRun).map SendRun.held).getD [] |>.Sublist (s.heldBy r) := List.nil_sublist _
  obtain ⟨stage,current,rest⟩ := run
  cases stage with
  | resolve =>
    cases outcome with
    | ok =>
      obtain ⟨y,hy,-,hsend⟩ := sending_of_latest h hrun (hguard rfl)
      refine sound_move h (hstay .smtp) (h.cancels.snoc _ (fun id he hc => ?_) (by simp))
      obtain rfl : current.id = id := by simpa using he
      obtain ⟨y',hy',hcancelled⟩ := h.cancels.status _ hc
      obtain rfl : y = y' := Option.some.inj (hy.symm.trans hy')
      exact absurd (hsend.symm.trans hcancelled) (by decide)
    | fault message => exact sound_move h (hstay (.closeError message)) h.cancels
  | smtp =>
    cases outcome with
    | ok => exact sound_move h (hstay .append) (h.cancels.snoc _ (by simp) (by simp))
    | fault message => exact sound_move h (hstay (.closeError message)) h.cancels
  | append =>
    cases outcome with
    | ok => exact sound_move h (hstay .bust) h.cancels
    | fault message => exact sound_move h (hstay .bust) h.cancels
  | bust =>
    cases outcome with
    | ok => exact sound_move h (hstay .closeSent) h.cancels
    | fault message => exact sound_move h (hstay (.closeError message)) h.cancels
  | closeSent =>
    cases outcome with
    | ok => exact sound_close h hrun (hguard rfl) (sentRow_id s.now) (fun _ => rfl) (by simp) (by simp)
    | fault message => exact sound_move h (hstay (.closeError message)) h.cancels
  | closeError error =>
    cases outcome with
    | ok =>
      have hlatest := hguard rfl
      by_cases hmax : current.attempts ≥ cfg.maxAttempts
      · have hclose := sound_close h hrun hlatest (failedRow_id s.now error) (fun _ => rfl)
          (e := .mailBounced current.id current.attempts error) (by simp) (by simp)
        simpa only [proceed,closeError,errorEvent,if_pos hmax] using hclose
      · have hclose := sound_close h hrun hlatest (deferredRow_id cfg s.now error) (fun _ => rfl)
          (e := .mailDeferred current.id current.attempts error) (by simp) (by simp)
        simpa only [proceed,closeError,errorEvent,if_neg hmax] using hclose
    | fault message => exact sound_move h hgone h.cancels

/-- Every step on a latest claim keeps the invariant and every terminal status. -/
theorem step_sound (h : SendInvariant s) {a : SendAction} (hguard : OnLatestClaim s a) (hstep : step cfg s a = some t) :
    SendInvariant t ∧ KeepsTerminal s.table t.table := by
  cases a with
  | wait seconds =>
    cases hstep
    exact ⟨⟨h.claims,h.cancels⟩,.refl _⟩
  | send id orgId mailboxId sendAt =>
    simp only [step] at hstep
    split at hstep
    · rename_i hnew
      cases hstep
      exact sound_send h _ hnew
    · simp at hstep
  | cancel id orgId mailboxId =>
    cases hstep
    exact sound_cancel h id orgId mailboxId
  | claim r ids =>
    simp only [step] at hstep
    split at hstep
    · rename_i hsel
      cases hstep
      exact sound_claim h hsel.2
    · simp at hstep
  | proceed r outcome =>
    obtain ⟨run,hrun,rfl⟩ := Option.map_eq_some_iff.mp hstep
    exact sound_proceed h hrun outcome (hguard run hrun)
  | crash r =>
    simp only [step] at hstep
    split at hstep
    · cases hstep
      exact sound_move h (List.nil_sublist _) h.cancels
    · simp at hstep

end Steps

section Runs
variable {cfg : SendConfig} {now : Nat} {s t : SendState}

theorem SendInvariant.initial (now : Nat) : SendInvariant (.initial now) where
  claims := ⟨fun _ _ hx => absurd hx List.not_mem_nil,fun _ => List.nodup_nil,
    fun _ _ _ _ hx => absurd hx List.not_mem_nil⟩
  cancels := ⟨fun _ h => absurd h List.not_mem_nil,fun _ pre _ h => by simp [SendState.initial] at h⟩

/-- Along every run that dispatches and closes on latest claims only, a terminal status
is final, and a row whose cancellation succeeded is neither dispatched later nor ever
sent. -/
theorem scheduled_send_final (hs : Run (step cfg) OnLatestClaim (.initial now) s)
    (ht : Run (step cfg) OnLatestClaim s t) :
    (∀ id row, s.table.lookup id = some row → row.status.terminal = true →
      ∃ row', t.table.lookup id = some row' ∧ row'.status = row.status) ∧
    ∀ id pre post, t.log = pre ++ .cancelled id :: post →
      .smtpStart id ∉ post ∧ ∀ row, t.table.lookup id = some row → row.status ≠ .sent := by
  have hinv : ∀ s a t, SendInvariant s → OnLatestClaim s a → step cfg s a = some t → SendInvariant t :=
    fun _ _ _ h hg hstep => (step_sound h hg hstep).1
  have hinit : SendInvariant s := hs.invariant hinv (.initial now)
  constructor
  · exact ht.relates (fun s => KeepsTerminal.refl s.table) (fun _ _ _ h h' => h.trans h') hinv
      (fun _ _ _ h hg hstep => (step_sound h hg hstep).2) hinit
  · intro id pre post hlog
    have hcancels := (ht.invariant hinv hinit).cancels
    refine ⟨hcancels.quiet id pre post hlog,fun row hrow hsent => ?_⟩
    obtain ⟨y,hy,hc⟩ := hcancels.status id (by rw [hlog]; simp)
    obtain rfl : y = row := Option.some.inj (hy.symm.trans hrow)
    exact absurd (hsent.symm.trans hc) (by decide)

def exampleConfig : SendConfig := ⟨60,30,5⟩

/-- A dispatch fails, the row is queued again and then cancelled. -/
def cancelledActions : List SendAction :=
  [.send 1 7 8 0,.claim 0 [1],.proceed 0 (.fault (js "refused")),.proceed 0 .ok,.cancel 1 7 8]

theorem cancelled_stays_cancelled :
    ∃ s t, Run (step exampleConfig) OnLatestClaim (.initial 0) s ∧ Run (step exampleConfig) OnLatestClaim s t ∧
      (s.table.lookup 1).map (·.status) = some .cancelled ∧ t.now = 500 ∧
      (t.table.lookup 1).map (·.status) = some .cancelled := by
  have hrun : ((runActions (step exampleConfig) OnLatestClaim (.initial 0) cancelledActions).map fun s =>
      (s.now,(s.table.lookup 1).map (·.status))) = some (0,some .cancelled) := by decide +kernel
  obtain ⟨s,hs,hview⟩ := Option.map_eq_some_iff.mp hrun
  obtain ⟨hnow,hstatus⟩ := Prod.mk.inj hview
  have hfirst : Run (step exampleConfig) OnLatestClaim (.initial 0) s := .of_actions hs
  have hwait : Run (step exampleConfig) OnLatestClaim s { s with now := s.now + 500 } :=
    .tail (.wait 500) (.refl s) trivial rfl
  obtain ⟨row,hrow,hcancelled⟩ := Option.map_eq_some_iff.mp hstatus
  obtain ⟨row',hrow',hsame⟩ := (scheduled_send_final hfirst hwait).1 1 row hrow (by rw [hcancelled]; rfl)
  refine ⟨s,_,hfirst,hwait,hstatus,by simp [hnow],?_⟩
  rw [hrow',Option.map_some,hsame,hcancelled]

/-- A first run stalls before its `sendMail`, a second one reclaims the row and fails,
and the user cancels. -/
def staleActions : List SendAction :=
  [.send 1 7 8 0,.claim 0 [1],.wait 100,.claim 1 [1],.proceed 1 (.fault (js "refused")),.proceed 1 .ok,.cancel 1 7 8]

/-- The first run wakes up. -/
def wakingActions : List SendAction := [.proceed 0 .ok,.proceed 0 .ok,.proceed 0 .ok,.proceed 0 .ok,.proceed 0 .ok]

theorem stale_run_sends_cancelled :
    ∃ s t, Run (step exampleConfig) (fun _ _ => True) (.initial 0) s ∧
      Run (step exampleConfig) (fun _ _ => True) s t ∧
      (s.table.lookup 1).map (·.status) = some .cancelled ∧ (t.table.lookup 1).map (·.status) = some .sent ∧
      ∃ pre post, t.log = pre ++ .cancelled 1 :: post ∧ .smtpStart 1 ∈ post := by
  have hrun : (((runActions (step exampleConfig) (fun _ _ => True) (.initial 0) staleActions).bind fun s =>
      (runActions (step exampleConfig) (fun _ _ => True) s wakingActions).map fun t => (s,t)).map fun p =>
      ((p.1.table.lookup 1).map (·.status),(p.2.table.lookup 1).map (·.status),p.2.log)) =
      some (some .cancelled,some .sent,
        [.mailDeferred 1 2 (js "refused"),.cancelled 1,.smtpStart 1,.smtpOk 1,.mailSent 1]) := by decide +kernel
  obtain ⟨⟨s,t⟩,hst,hview⟩ := Option.map_eq_some_iff.mp hrun
  obtain ⟨s',hs,hmap⟩ := Option.bind_eq_some_iff.mp hst
  obtain ⟨t',ht,he⟩ := Option.map_eq_some_iff.mp hmap
  obtain ⟨rfl,rfl⟩ := Prod.mk.inj he
  simp only [Prod.mk.injEq] at hview
  exact ⟨s',t',.of_actions hs,.of_actions ht,hview.1,hview.2.1,
    [.mailDeferred 1 2 (js "refused")],[.smtpStart 1,.smtpOk 1,.mailSent 1],hview.2.2,by simp⟩

end Runs

end JustMail.Webmail
