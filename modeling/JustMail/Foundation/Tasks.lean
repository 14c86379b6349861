import JustMail.Foundation.Runs

/-! Operations that run at the same time over one shared state. An operation is the
list of the atomic instructions it has still to carry out; an instruction may put more
of them in front, or end the operation with an exception. -/
namespace JustMail.Foundation

/-- What becomes of the operation after an instruction. -/
inductive Outcome (ι : Type) where
  | next (more : List ι)
  | throw

def Outcome.continuation {ι : Type} (rest : List ι) : Outcome ι → List ι
  | .next more => more ++ rest
  | .throw => []

/-- What holds of the instructions that an outcome adds. -/
def Outcome.Adds {ι : Type} (p : ι → Prop) : Outcome ι → Prop
  | .next more => ∀ x ∈ more, p x
  | .throw => True

theorem Outcome.adds_nil {ι : Type} (p : ι → Prop) : (Outcome.next []).Adds p := fun _ hx => absurd hx List.not_mem_nil

theorem Outcome.adds_one {ι : Type} {p : ι → Prop} {x : ι} (h : p x) : (Outcome.next [x]).Adds p := by
  intro y hy
  rw [List.mem_singleton.mp hy]
  exact h

theorem Outcome.adds_ite {ι : Type} {p : ι → Prop} {c : Prop} [Decidable c] {yes no : Outcome ι}
    (hyes : c → yes.Adds p) (hno : ¬c → no.Adds p) :
    (if c then yes else no).Adds p := by
  split
  · rename_i hc
    exact hyes hc
  · rename_i hc
    exact hno hc

/-- The shared state, and what each operation has left to do. -/
structure Tasks (σ ι : Type) where
  shared : σ
  running : List (List ι)

/-- An operation is called, or one that runs carries out its next instruction. `ε` is
what the instruction meets in its environment. -/
inductive TaskAction (ω ε : Type) where
  | call (op : ω)
  | exec (i : Nat) (env : ε)

section Steps
variable {σ ι ω ε : Type} (exec : σ → ι → ε → Option (σ × Outcome ι)) (body : ω → List ι)

def taskStep (s : Tasks σ ι) : TaskAction ω ε → Option (Tasks σ ι)
  | .call op => some ⟨s.shared,s.running ++ [body op]⟩
  | .exec i env =>
    match s.running[i]? with
    | some (instr :: rest) =>
      (exec s.shared instr env).map fun (shared,outcome) => ⟨shared,s.running.set i (outcome.continuation rest)⟩
    | _ => none

/-- One operation with nothing else going on. The result tells whether it came to its
end without an exception. -/
def runAlone (s : σ) : List ι → List ε → Option (σ × Bool)
  | [], [] => some (s,true)
  | instr :: rest, env :: envs =>
    match exec s instr env with
    | some (s',.next more) => runAlone s' (more ++ rest) envs
    | some (s',.throw) => if envs.isEmpty then some (s',false) else none
    | none => none
  | _, _ => none

/-- The instruction that a step carries out. -/
def Tasks.instr (s : Tasks σ ι) : TaskAction ω ε → Option ι
  | .call _ => none
  | .exec i _ => s.running[i]?.bind (·.head?)

/-- No operation is in flight. -/
def Tasks.Idle (s : Tasks σ ι) : Prop := ∀ task ∈ s.running, task = []

def Tasks.isIdle (s : Tasks σ ι) : Bool := s.running.all List.isEmpty

/-- Some operation has still to carry out the instruction. -/
def Tasks.Pending (s : Tasks σ ι) (x : ι) : Prop := ∃ task ∈ s.running, x ∈ task

/-- The pending instructions that satisfy `p`. -/
def Tasks.inFlight (s : Tasks σ ι) (p : ι → Bool) : List ι := s.running.flatten.filter p

variable {exec body} {shared : σ} {s t : Tasks σ ι} {a : TaskAction ω ε} {x instr : ι} {rest : List ι} {i : Nat}

theorem runAlone_next {s s' : σ} {more : List ι} {env : ε} (h : exec s instr env = some (s',.next more)) (envs : List ε) :
    runAlone exec s (instr :: rest) (env :: envs) = runAlone exec s' (more ++ rest) envs := by
  rw [runAlone,h]

theorem Tasks.idle_of_isIdle (h : s.isIdle = true) : s.Idle :=
  fun task htask => List.isEmpty_iff.mp (List.all_eq_true.mp h task htask)

theorem Tasks.Idle.not_pending (h : s.Idle) : ¬s.Pending x := by
  rintro ⟨task,htask,hx⟩
  rw [h task htask] at hx
  exact List.not_mem_nil hx

theorem taskStep_cases (h : taskStep exec body s a = some t) :
    (∃ op, a = .call op ∧ t = ⟨s.shared,s.running ++ [body op]⟩) ∨
    ∃ i env instr rest shared outcome, a = .exec i env ∧ s.running[i]? = some (instr :: rest) ∧
      exec s.shared instr env = some (shared,outcome) ∧
      t = ⟨shared,s.running.set i (outcome.continuation rest)⟩ := by
  cases a with
  | call op => exact .inl ⟨op,rfl,(Option.some.inj h).symm⟩
  | exec i env =>
    rw [taskStep] at h
    split at h
    · rename_i instr rest hi
      obtain ⟨⟨shared,outcome⟩,hexec,rfl⟩ := Option.map_eq_some_iff.mp h
      exact .inr ⟨i,env,instr,rest,shared,outcome,rfl,hi,hexec,rfl⟩
    · simp at h

theorem Tasks.instr_exec {env : ε} (h : s.running[i]? = some (instr :: rest)) :
    s.instr (.exec i env : TaskAction ω ε) = some instr := by
  rw [Tasks.instr,h]
  rfl

theorem Tasks.pending_head (h : s.running[i]? = some (instr :: rest)) : s.Pending instr :=
  ⟨_,List.mem_of_getElem? h,List.mem_cons_self⟩

theorem Tasks.Pending.call {op : ω} (h : s.Pending x) : Tasks.Pending ⟨s.shared,s.running ++ [body op]⟩ x := by
  obtain ⟨task,htask,hx⟩ := h
  exact ⟨task,List.mem_append_left _ htask,hx⟩

theorem Tasks.pending_call {op : ω} (h : Tasks.Pending ⟨s.shared,s.running ++ [body op]⟩ x) : s.Pending x ∨ x ∈ body op := by
  obtain ⟨task,htask,hx⟩ := h
  rcases List.mem_append.mp htask with htask | htask
  · exact .inl ⟨task,htask,hx⟩
  · exact .inr (List.mem_singleton.mp htask ▸ hx)

/-- After a step an instruction is pending only if it was, or the step added it. -/
theorem Tasks.pending_exec {outcome : Outcome ι} (h : s.running[i]? = some (instr :: rest))
    (hx : Tasks.Pending ⟨shared,s.running.set i (outcome.continuation rest)⟩ x) :
    s.Pending x ∨ ∃ more, outcome = .next more ∧ x ∈ more := by
  obtain ⟨task,htask,hx⟩ := hx
  rcases List.mem_or_eq_of_mem_set htask with htask | rfl
  · exact .inl ⟨task,htask,hx⟩
  · cases outcome with
    | throw => exact absurd hx List.not_mem_nil
    | next more =>
      rcases List.mem_append.mp hx with hx | hx
      · exact .inr ⟨more,rfl,hx⟩
      · exact .inl ⟨_,List.mem_of_getElem? h,List.mem_cons_of_mem _ hx⟩

/-- What holds of the pending instructions holds after a step if it does of those that the step adds. -/
theorem Tasks.forall_pending_exec {p : ι → Prop} {outcome : Outcome ι} (h : s.running[i]? = some (instr :: rest))
    (hp : ∀ x, s.Pending x → p x) (hadds : outcome.Adds p) :
    ∀ x, Tasks.Pending ⟨shared,s.running.set i (outcome.continuation rest)⟩ x → p x := by
  intro x hx
  rcases Tasks.pending_exec h hx with hold | ⟨more,rfl,hmore⟩
  · exact hp x hold
  · exact hadds x hmore

private theorem getElem?_set_self {tasks : List (List ι)} {old new : List ι} (h : tasks[i]? = some old) :
    new ∈ tasks.set i new := by
  obtain ⟨hi,-⟩ := List.getElem?_eq_some_iff.mp h
  exact List.mem_iff_getElem.mpr ⟨i,by simpa using hi,by simp⟩

theorem Tasks.pending_more {more : List ι} (h : s.running[i]? = some (instr :: rest)) (hx : x ∈ more) :
    Tasks.Pending ⟨shared,s.running.set i (Outcome.continuation rest (.next more))⟩ x :=
  ⟨_,getElem?_set_self h,List.mem_append_left _ hx⟩

theorem Tasks.pending_rest {more : List ι} (h : s.running[i]? = some (instr :: rest)) (hx : x ∈ rest) :
    Tasks.Pending ⟨shared,s.running.set i (Outcome.continuation rest (.next more))⟩ x :=
  ⟨_,getElem?_set_self h,List.mem_append_right _ hx⟩

/-- Only the instruction carried out ceases to be pending. -/
theorem Tasks.Pending.stays {more : List ι} (hx : s.Pending x) (h : s.running[i]? = some (instr :: rest))
    (hne : x ≠ instr) : Tasks.Pending ⟨shared,s.running.set i (Outcome.continuation rest (.next more))⟩ x := by
  obtain ⟨task,htask,hx⟩ := hx
  obtain ⟨j,hj,rfl⟩ := List.mem_iff_getElem.mp htask
  by_cases hij : i = j
  · subst hij
    rw [List.getElem?_eq_getElem hj,Option.some.injEq] at h
    rw [h] at hx
    have hrest : x ∈ rest := (List.mem_cons.mp hx).resolve_left hne
    exact Tasks.pending_rest (by rw [List.getElem?_eq_getElem hj,h]) hrest
  · exact ⟨s.running[j],List.mem_iff_getElem.mpr ⟨j,by simpa using hj,by simp [hij]⟩,hx⟩

theorem Tasks.Idle.inFlight {p : ι → Bool} (h : s.Idle) : s.inFlight p = [] := by
  rw [Tasks.inFlight,List.flatten_eq_nil_iff.mpr h]
  rfl

theorem Tasks.inFlight_call {p : ι → Bool} {op : ω} (h : ∀ x ∈ body op, p x = false) :
    Tasks.inFlight ⟨s.shared,s.running ++ [body op]⟩ p = s.inFlight p := by
  have hbody : (body op).filter p = [] := List.filter_eq_nil_iff.mpr fun x hx => by simp [h x hx]
  simp [Tasks.inFlight,hbody]

/-- A step replaces what its operation had in flight. -/
theorem Tasks.inFlight_exec (p : ι → Bool) (h : s.running[i]? = some (instr :: rest)) :
    ∃ before after, s.inFlight p = before ++ (instr :: rest).filter p ++ after ∧
      ∀ (shared : σ) (new : List ι), Tasks.inFlight ⟨shared,s.running.set i new⟩ p = before ++ new.filter p ++ after := by
  obtain ⟨hi,heq⟩ := List.getElem?_eq_some_iff.mp h
  have hsplit : s.running = s.running.take i ++ s.running[i] :: s.running.drop (i+1) := by simp
  refine ⟨(s.running.take i).flatten.filter p,(s.running.drop (i+1)).flatten.filter p,?_,?_⟩
  · have hflat : s.running.flatten =
        (s.running.take i).flatten ++ ((instr :: rest) ++ (s.running.drop (i+1)).flatten) := by
      conv_lhs => rw [hsplit,heq]
      rw [List.flatten_append,List.flatten_cons]
    rw [Tasks.inFlight,hflat,List.filter_append,List.filter_append,List.append_assoc]
  · intro shared new
    rw [Tasks.inFlight,List.set_eq_take_append_cons_drop,if_pos hi,List.flatten_append,List.flatten_cons,
      List.filter_append,List.filter_append,List.append_assoc]

/-- Something stays in flight if the operation that moves keeps what it had. -/
theorem Tasks.inFlight_stays {p : ι → Bool} {new : List ι} (h : s.running[i]? = some (instr :: rest))
    (hflight : s.inFlight p ≠ []) (hnew : (instr :: rest).filter p ≠ [] → new.filter p ≠ []) (shared : σ) :
    Tasks.inFlight ⟨shared,s.running.set i new⟩ p ≠ [] := by
  obtain ⟨before,after,hbefore,hafter⟩ := Tasks.inFlight_exec p h
  intro hnil
  rw [hafter,List.append_eq_nil_iff,List.append_eq_nil_iff] at hnil
  obtain ⟨⟨hb,hn⟩,ha⟩ := hnil
  have hold : (instr :: rest).filter p = [] := by_contra fun hne => hnew hne hn
  exact hflight (by rw [hbefore,hb,hold,ha]; rfl)

theorem Tasks.inFlight_adds {p : ι → Bool} {new : List ι} (h : s.running[i]? = some (instr :: rest))
    (hnew : new.filter p ≠ []) (shared : σ) : Tasks.inFlight ⟨shared,s.running.set i new⟩ p ≠ [] := by
  obtain ⟨before,after,-,hafter⟩ := Tasks.inFlight_exec p h
  intro hnil
  rw [hafter,List.append_eq_nil_iff,List.append_eq_nil_iff] at hnil
  exact hnew hnil.1.2

/-- An instruction that is the only one in flight leaves those that follow it. -/
theorem Tasks.inFlight_only {p : ι → Bool} (h : s.running[i]? = some [instr]) (hp : p instr = true)
    (hx : s.inFlight p = [x]) :
    x = instr ∧ ∀ (shared : σ) (new : List ι), Tasks.inFlight ⟨shared,s.running.set i new⟩ p = new.filter p := by
  obtain ⟨before,after,hbefore,hafter⟩ := Tasks.inFlight_exec p h
  rw [List.filter_cons_of_pos hp,hx] at hbefore
  cases before with
  | nil =>
    obtain ⟨rfl,hrest⟩ := List.cons.inj hbefore
    obtain rfl : after = [] := by simpa using hrest.symm
    exact ⟨rfl,fun shared new => by simpa using hafter shared new⟩
  | cons b before => simp at hbefore

/-- An instruction of another kind leaves what is in flight and adds its successors. -/
theorem Tasks.inFlight_other {p : ι → Bool} (h : s.running[i]? = some [instr]) (hp : p instr = false) (shared : σ)
    {new : List ι} (hnew : s.inFlight p = [] ∨ new.filter p = []) :
    Tasks.inFlight ⟨shared,s.running.set i new⟩ p = s.inFlight p ++ new.filter p := by
  obtain ⟨before,after,hbefore,hafter⟩ := Tasks.inFlight_exec p h
  have hskip : [instr].filter p = [] := by simp [hp]
  rw [hskip,List.append_nil] at hbefore
  rw [hafter,hbefore]
  rcases hnew with hempty | hnone
  · rw [hbefore,List.append_eq_nil_iff] at hempty
    simp [hempty.1,hempty.2]
  · simp [hnone]

/-- What holds of every operation holds after a step if it does of the one that moved. -/
theorem Tasks.forall_set {p : List ι → Prop} {new : List ι} (h : ∀ task ∈ s.running, p task) (hnew : p new) :
    ∀ task ∈ s.running.set i new, p task := by
  intro task htask
  rcases List.mem_or_eq_of_mem_set htask with htask | rfl
  · exact h task htask
  · exact hnew

end Steps
end JustMail.Foundation
