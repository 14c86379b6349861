import JustMail.Dkim.Keys

/-! Promotion of published keys while other operations run. -/
namespace JustMail.Dkim
open Foundation

/-- The key a pending instruction of a promotion is about. -/
def KeyInstr.candidate : KeyInstr → Option Nat
  | .txtResolves _ id | .promoteTx _ id => some id
  | _ => none

/-- A promotion in flight has still to handle the key. -/
def Candidate (s : KeyTasks) (id : Nat) : Prop := ∃ task ∈ s.running, ∃ instr ∈ task, instr.candidate = some id

def retiredIds (s : KeyState) : KeyInstr → List Nat
  | .retireUpdate id => [id]
  | .activateTx domain id | .promoteTx domain id =>
    (s.table.keys.rows.filter fun k => k.domain = domain ∧ k.id ≠ id ∧ k.status = .active).map (·.id)
  | _ => []

/-- No step retires a key that a promotion in flight has still to handle. -/
def SparesCandidates (s : KeyTasks) (a : KeyAction) : Prop :=
  ∀ instr ∈ s.instr a, ∀ id ∈ retiredIds s.shared instr, ¬Candidate s id

instance (s : KeyTasks) (id : Nat) : Decidable (Candidate s id) :=
  inferInstanceAs (Decidable (∃ task ∈ s.running, ∃ instr ∈ task, instr.candidate = some id))

instance (s : KeyTasks) (a : KeyAction) : Decidable (SparesCandidates s a) :=
  inferInstanceAs (Decidable (∀ instr ∈ s.instr a, ∀ id ∈ retiredIds s.shared instr, ¬Candidate s id))

/-- A retired key is active after the step. -/
def Resurrects (s t : KeyState) : Prop :=
  ∃ k ∈ s.table.keys.rows, k.status = .retired ∧ ∃ k' ∈ t.table.keys.rows, k'.id = k.id ∧ k'.status = .active

/-- The key is there and not retired. -/
def Live (s : KeyState) (id : Nat) : Prop := ∃ k ∈ s.table.keys.rows, k.id = id ∧ k.status ≠ .retired

section Steps
variable {cfg : RotationConfig} {s t : KeyTasks} {a : KeyAction} {sh sh' : KeyState} {instr : KeyInstr}
  {more : List KeyInstr} {id now : Nat}

theorem candidate_iff : Candidate s id ↔ ∃ instr, s.Pending instr ∧ instr.candidate = some id := by
  constructor
  · rintro ⟨task,htask,instr,hinstr,hid⟩
    exact ⟨instr,⟨task,htask,hinstr⟩,hid⟩
  · rintro ⟨instr,⟨task,htask,hinstr⟩,hid⟩
    exact ⟨task,htask,instr,hinstr,hid⟩

theorem live_makeActive {domain : JsString} {id' : Nat} (hlive : Live sh id)
    (hspare : id ∉ retiredIds sh (.promoteTx domain id')) : Live (makeActive sh domain id' now) id := by
  obtain ⟨k,hk,hid,hstatus⟩ := hlive
  have hkept : k ∈ (sh.table.retireOthers domain id').keys.rows := by
    refine mem_setStatus.mpr (.inl ⟨hk,?_⟩)
    rw [decide_eq_false_iff_not]
    rintro ⟨hdomain,hne,hactive⟩
    exact hspare (List.mem_map.mpr ⟨k,List.mem_filter.mpr ⟨hk,decide_eq_true ⟨hdomain,hne,hactive⟩⟩,hid⟩)
  by_cases hself : k.id = id'
  · exact ⟨_,mem_setStatus.mpr (.inr ⟨k,hkept,by simpa using hself,rfl⟩),hid,by simp⟩
  · exact ⟨k,mem_setStatus.mpr (.inl ⟨hkept,by simpa using hself⟩),hid,hstatus⟩

theorem live_run (heffect : KeyEffect sh now instr sh' more) (hlive : Live sh id) (hspare : id ∉ retiredIds sh instr) :
    Live sh' id := by
  obtain ⟨k,hk,hid,hstatus⟩ := hlive
  rcases heffect.table with hsame | ⟨new,hinsert,-⟩ | ⟨domain,id',hinstr,rfl⟩ | ⟨id',rfl,htable⟩
  · exact ⟨k,hsame ▸ hk,hid,hstatus⟩
  · exact ⟨k,(mem_insertKey hinsert).mpr (.inl hk),hid,hstatus⟩
  · refine live_makeActive ⟨k,hk,hid,hstatus⟩ ?_
    rcases hinstr with rfl | rfl
    · exact hspare
    · exact hspare
  · obtain ⟨k',hk',hid',hsame⟩ := mem_retireKey id' hk
    refine ⟨k',htable ▸ hk',hid'.trans hid,?_⟩
    rwa [hsame fun heq => hspare (List.mem_singleton.mpr (hid.symm.trans heq))]

/-- Only `activate` and a promotion make a key active, and only the one they name. -/
theorem resurrects_run (heffect : KeyEffect sh now instr sh' more) (h : Resurrects sh sh') :
    ∃ domain id, (instr = .activateTx domain id ∨ instr = .promoteTx domain id) ∧
      ∃ k ∈ sh.table.keys.rows, k.id = id ∧ k.status = .retired := by
  obtain ⟨k,hk,hretired,k',hk',hid,hactive⟩ := h
  have hunique : ∀ {k'}, k' ∈ sh.table.keys.rows → k'.id = k.id → k'.status = .retired := by
    intro k' hk' hid
    rw [List.inj_on_of_nodup_map sh.table.keys.unique hk' hk hid]
    exact hretired
  rcases heffect.table with hsame | ⟨new,hinsert,hnew⟩ | ⟨domain,id,hinstr,rfl⟩ | ⟨id,rfl,htable⟩
  · have hold := hunique (hsame ▸ hk') hid
    simp [hactive] at hold
  · rcases (mem_insertKey hinsert).mp hk' with hk' | rfl
    · have hold := hunique hk' hid
      simp [hactive] at hold
    · simp [hactive] at hnew
  · refine ⟨domain,id,hinstr,k,hk,?_,hretired⟩
    rcases mem_setStatus.mp hk' with ⟨hk',-⟩ | ⟨k'',-,hself,rfl⟩
    · rcases mem_setStatus.mp hk' with ⟨hk',-⟩ | ⟨k'',-,-,rfl⟩
      · have hold := hunique hk' hid
        simp [hactive] at hold
      · simp at hactive
    · exact hid.symm.trans (by simpa using hself)
  · rw [htable] at hk'
    rcases mem_setStatus.mp hk' with ⟨hk',-⟩ | ⟨k'',-,-,rfl⟩
    · have hold := hunique hk' hid
      simp [hactive] at hold
    · simp at hactive

/-- The candidates a step adds are published, or were candidates before. -/
theorem candidate_run {x : KeyInstr} (heffect : KeyEffect sh now instr sh' more) (hx : x ∈ more)
    (hid : x.candidate = some id) : instr.candidate = some id ∨ (instr = .selectReady ∧ Live sh id) := by
  cases heffect with
  | selectReady ready hready =>
    obtain ⟨k,hk,rfl⟩ := List.mem_map.mp hx
    obtain ⟨hk,hpublished⟩ := hready k hk
    exact .inr ⟨rfl,k,hk,Option.some.inj hid,by simp [hpublished]⟩
  | resolved =>
    rw [List.mem_singleton.mp hx] at hid
    exact .inl hid
  | selectDue domains =>
    obtain ⟨domain,-,rfl⟩ := List.mem_map.mp hx
    simp [KeyInstr.candidate] at hid
  | selectSync =>
    rw [List.mem_append,List.mem_map,List.mem_singleton] at hx
    rcases hx with ⟨k,-,rfl⟩ | rfl <;> simp [KeyInstr.candidate] at hid
  | retireSelect =>
    simp only [List.mem_cons,List.not_mem_nil,or_false] at hx
    rcases hx with rfl | rfl | rfl <;> simp [KeyInstr.candidate] at hid
  | _ =>
    simp only [List.mem_singleton,List.not_mem_nil] at hx <;> simp [hx,KeyInstr.candidate] at hid

def CandidatesLive (s : KeyTasks) : Prop := ∀ id, Candidate s id → Live s.shared id

theorem candidatesLive_step (h : CandidatesLive s) (hspare : SparesCandidates s a) (hstep : keyStep cfg s a = some t) :
    CandidatesLive t := by
  intro id hcand
  obtain ⟨x,hx,hid⟩ := candidate_iff.mp hcand
  rcases keyStep_cases hstep with ⟨op,rfl,rfl⟩ | ⟨i,env,instr,rest,rfl,hi,⟨-,rfl⟩ | ⟨shared,more,-,heffect,rfl⟩⟩
  · rcases Tasks.pending_call hx with hx | hx
    · exact h id (candidate_iff.mpr ⟨x,hx,hid⟩)
    · have hbody : ∀ x ∈ keyOpBody cfg op, x.candidate = none := by
        cases op <;> simp [keyOpBody,KeyInstr.candidate]
        rintro x - (rfl | rfl) <;> rfl
      simp [hbody x hx] at hid
  · exact h id (candidate_iff.mpr ⟨x,pending_failure hi hx,hid⟩)
  · -- a candidate of the new state was one before, or the step has just read it
    have hbefore : Candidate s id ∨ (instr = .selectReady ∧ Live s.shared id) := by
      rcases Tasks.pending_exec hi hx with hx | ⟨_,hmore,hx⟩
      · exact .inl (candidate_iff.mpr ⟨x,hx,hid⟩)
      · refine (candidate_run heffect (Outcome.next.inj hmore ▸ hx) hid).imp_left fun hself => ?_
        exact candidate_iff.mpr ⟨instr,Tasks.pending_head hi,hself⟩
    rcases hbefore with hcand | ⟨rfl,hlive⟩
    · exact live_run heffect (h id hcand) fun hretires => hspare instr (Tasks.instr_exec hi) id hretires hcand
    · exact live_run heffect hlive List.not_mem_nil

/-- While no candidate is retired under way, nothing but `activate` brings a retired key
back: no step of a promotion does. -/
theorem promotion_never_resurrects (cfg : RotationConfig) {s₀ s t : KeyTasks} {a : KeyAction} (hidle : s₀.Idle)
    (hrun : Run (keyStep cfg) SparesCandidates s₀ s) (hstep : keyStep cfg s a = some t)
    (hother : ∀ domain id, s.instr a ≠ some (.activateTx domain id)) : ¬Resurrects s.shared t.shared := by
  have hlive : CandidatesLive s := by
    refine hrun.invariant (fun s a t h ha hstep => candidatesLive_step h ha hstep) fun id hcand => ?_
    obtain ⟨x,hx,-⟩ := candidate_iff.mp hcand
    exact absurd hx hidle.not_pending
  have hself : ¬Resurrects s.shared s.shared := by
    rintro ⟨k,hk,hretired,k',hk',hid,hactive⟩
    rw [List.inj_on_of_nodup_map s.shared.table.keys.unique hk' hk hid,hretired] at hactive
    simp at hactive
  rcases keyStep_cases hstep with ⟨op,rfl,rfl⟩ | ⟨i,env,instr,rest,rfl,hi,⟨-,rfl⟩ | ⟨shared,more,-,heffect,rfl⟩⟩
  · exact hself
  · exact hself
  · intro hres
    obtain ⟨domain,id,rfl | rfl,k,hk,hid,hretired⟩ := resurrects_run heffect hres
    · exact hother domain id (Tasks.instr_exec hi)
    · obtain ⟨k',hk',hid',hnot⟩ := hlive id (candidate_iff.mpr ⟨_,Tasks.pending_head hi,rfl⟩)
      rw [List.inj_on_of_nodup_map s.shared.table.keys.unique hk' hk (hid'.trans hid.symm)] at hnot
      exact hnot hretired

def rotationConfig : RotationConfig := ⟨true,1000,10⟩

def publishedState : KeyTasks where
  shared := ⟨⟨⟨[⟨1,js "ex.com",js "jm202601",7,.published,0,none⟩],by decide⟩,by decide⟩,fun _ => some 7,[],0,0⟩
  running := []

/-- The environment at the time `now`: lookups find the record and nothing fails. -/
def calm (now : Nat) : KeyEnv := ⟨now,js "jm202602",2,8,true,false⟩

def promotionTrace : List KeyAction := [.call .rotateDue,.exec 0 (calm 60),.exec 0 (calm 60),.exec 0 (calm 60)]

def statusesOf (s : KeyTasks) : List (Nat × KeyStatus) := s.shared.table.keys.rows.map fun k => (k.id,k.status)

theorem promotion_of_published_key :
    ∃ s t, Run (keyStep rotationConfig) SparesCandidates publishedState s ∧
      keyStep rotationConfig s (.exec 0 (calm 60)) = some t ∧ statusesOf t = [(1,.active)] ∧
      ¬Resurrects s.shared t.shared := by
  have htrace : ((runActions (keyStep rotationConfig) SparesCandidates publishedState promotionTrace).map fun s =>
      (s.instr (.exec 0 (calm 60) : KeyAction),(keyStep rotationConfig s (.exec 0 (calm 60))).map statusesOf)) =
      some (some (.promoteTx (js "ex.com") 1),some [(1,.active)]) := by
    decide +kernel
  obtain ⟨s,hs,hview⟩ := Option.map_eq_some_iff.mp htrace
  obtain ⟨hinstr,hview⟩ := Prod.mk.inj hview
  obtain ⟨t,ht,hstatus⟩ := Option.map_eq_some_iff.mp hview
  have hrun := Run.of_actions hs
  refine ⟨s,t,hrun,ht,hstatus,promotion_never_resurrects rotationConfig ?_ hrun ht ?_⟩
  · exact fun task htask => absurd htask List.not_mem_nil
  · intro domain id
    rw [hinstr]
    simp

/-- With the key retired between the lookup and the transaction, promotion makes it
active again. -/
theorem promotion_resurrects_retired_key :
    ∃ s t, Run (keyStep rotationConfig) (fun _ _ => True) publishedState s ∧
      s.instr (.exec 0 (calm 60) : KeyAction) = some (.promoteTx (js "ex.com") 1) ∧
      keyStep rotationConfig s (.exec 0 (calm 60)) = some t ∧ Resurrects s.shared t.shared := by
  have htrace : ((runActions (keyStep rotationConfig) (fun _ _ => True) publishedState
      (promotionTrace ++ [.call (.retire (js "ex.com") 1),.exec 1 (calm 60),.exec 1 (calm 60)])).map fun s =>
      (s.instr (.exec 0 (calm 60) : KeyAction),statusesOf s,(keyStep rotationConfig s (.exec 0 (calm 60))).map statusesOf)) =
      some (some (.promoteTx (js "ex.com") 1),[(1,.retired)],some [(1,.active)]) := by
    decide +kernel
  obtain ⟨s,hs,hview⟩ := Option.map_eq_some_iff.mp htrace
  obtain ⟨hinstr,hview⟩ := Prod.mk.inj hview
  obtain ⟨hbefore,hview⟩ := Prod.mk.inj hview
  obtain ⟨t,ht,hafter⟩ := Option.map_eq_some_iff.mp hview
  refine ⟨s,t,Run.of_actions hs,hinstr,ht,?_⟩
  have hmem : ∀ {s : KeyTasks} {status}, statusesOf s = [(1,status)] →
      ∃ k ∈ s.shared.table.keys.rows, k.id = 1 ∧ k.status = status := by
    intro s status h
    have hfirst : (1,status) ∈ statusesOf s := h ▸ List.mem_cons_self
    obtain ⟨k,hk,heq⟩ := List.mem_map.mp hfirst
    exact ⟨k,hk,(Prod.mk.inj heq).1,(Prod.mk.inj heq).2⟩
  obtain ⟨k,hk,hid,hretired⟩ := hmem hbefore
  obtain ⟨k',hk',hid',hactive⟩ := hmem hafter
  exact ⟨k,hk,hretired,k',hk',hid'.trans hid.symm,hactive⟩

end Steps
end JustMail.Dkim
