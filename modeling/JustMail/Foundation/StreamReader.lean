import JustMail.Foundation.Runs
import Mathlib.Data.List.Basic

/-! Readers of a stream that arrives in chunks. A reader takes piece after piece from a buffer, gives up its turn where the
next piece has not come whole, and is woken by what comes next. What it answers does not depend on the chunks. -/
namespace JustMail.Foundation

/-- `advance` takes one piece, if it is there: the reader goes on, or has an answer. What comes later changes nothing about a
piece that is there, and only so many pieces are taken before an answer. -/
structure StreamReader (α σ ρ : Type) where
  start : σ
  advance : σ → List α → Option ((σ ⊕ ρ) × List α)
  size : σ → List α → Nat
  advance_append {s : σ} {b rest : List α} {r : σ ⊕ ρ} (more : List α) :
    advance s b = some (r,rest) → advance s (b ++ more) = some (r,rest ++ more)
  size_lt {s s' : σ} {b rest : List α} : advance s b = some (.inl s',rest) → size s' rest < size s b

namespace StreamReader
variable {α σ ρ ε : Type} (rd : StreamReader α σ ρ)

section Whole

/-- What a reader makes of all that comes: an answer and what is left, or what is left from the piece on that is not whole. -/
def finish (s : σ) (b : List α) : Except (List α) (ρ × List α) :=
  match _h : rd.advance s b with
  | none => .error b
  | some (.inr r,rest) => .ok (r,rest)
  | some (.inl s',rest) => finish s' rest
termination_by rd.size s b
decreasing_by exact rd.size_lt _h

/-- An answer, or the error where there is one to give. -/
def settle (failure : Option ε) (next : List α → List (Except ε ρ)) : Except (List α) (ρ × List α) → List (Except ε ρ)
  | .ok (r,rest) => .ok r :: next rest
  | .error left =>
    match failure with
    | some e => .error e :: next left
    | none => []

/-- The answers to so many calls, over the whole stream. A call that has nothing to answer is the last. -/
def answers (failure : Option ε) : Nat → List α → List (Except ε ρ)
  | 0,_ => []
  | n+1,b => settle failure (answers failure n) (rd.finish rd.start b)

variable {rd} {s s' : σ} {b rest : List α} {r : ρ}

theorem finish_none (h : rd.advance s b = none) : rd.finish s b = .error b := by
  rw [finish]
  split <;> simp_all

theorem finish_done (h : rd.advance s b = some (.inr r,rest)) : rd.finish s b = .ok (r,rest) := by
  rw [finish]
  split <;> simp_all

theorem finish_more (h : rd.advance s b = some (.inl s',rest)) : rd.finish s b = rd.finish s' rest := by
  rw [finish]
  split <;> simp_all

end Whole

inductive Phase (σ : Type) where
  | idle
  | running (s : σ)
  | waiting (s : σ)

/-- A waiting reader gets its turn. -/
def Phase.signal : Phase σ → Phase σ
  | .waiting s => .running s
  | phase => phase

/-- A buffer, the error of the connection, the reader's call that is under way and the answers to the calls before. -/
structure Session (α σ ρ ε : Type) where
  buffer : List α
  failure : Option ε
  closed : Bool
  phase : Phase σ
  log : List (Except ε ρ)

inductive SessionEvent (α ε : Type) where
  | data (chunk : List α)
  | error (e : ε)
  | close
  | call
  | turn

def SessionEvent.chunk? : SessionEvent α ε → Option (List α)
  | .data chunk => some chunk
  | _ => none

def SessionEvent.isCall : SessionEvent α ε → Bool
  | .call => true
  | _ => false

def Session.fresh : Session α σ ρ ε := ⟨[],none,false,.idle,[]⟩

/-- A connection that has failed brings no more data, and closes once. One call is made after the other. -/
def step (closedError : ε) (s : Session α σ ρ ε) : SessionEvent α ε → Option (Session α σ ρ ε)
  | .data chunk => if s.failure.isNone then some { s with buffer := s.buffer ++ chunk, phase := s.phase.signal } else none
  | .error e => if s.failure.isNone then some { s with failure := some e, phase := s.phase.signal } else none
  | .close =>
    if s.closed then none
    else some { s with closed := true, failure := some (s.failure.getD closedError), phase := s.phase.signal }
  | .call =>
    match s.phase with
    | .idle => some { s with phase := .running rd.start }
    | _ => none
  | .turn =>
    match s.phase with
    | .running c =>
      match rd.advance c s.buffer with
      | some (.inl c',rest) => some { s with buffer := rest, phase := .running c' }
      | some (.inr r,rest) => some { s with buffer := rest, phase := .idle, log := s.log ++ [.ok r] }
      | none =>
        match s.failure with
        | some e => some { s with phase := .idle, log := s.log ++ [.error e] }
        | none => some { s with phase := .waiting c }
    | _ => none

def Phase.isRunning : Phase σ → Bool
  | .running _ => true
  | _ => false

def Session.AtRest (s : Session α σ ρ ε) : Prop := ∀ c, s.phase ≠ .running c

def chunksOf (es : List (SessionEvent α ε)) : List (List α) := es.filterMap SessionEvent.chunk?

def streamOf (es : List (SessionEvent α ε)) : List α := (chunksOf es).flatten

def callsOf (es : List (SessionEvent α ε)) : Nat := es.countP SessionEvent.isCall

abbrev run (closedError : ε) : Session α σ ρ ε → List (SessionEvent α ε) → Option (Session α σ ρ ε) :=
  runActions (rd.step closedError) fun _ _ => True

section Runs
variable {rd} {closedError : ε} {s t : Session α σ ρ ε} {es : List (SessionEvent α ε)} {e : SessionEvent α ε}

inductive Steps (rd : StreamReader α σ ρ) (closedError : ε) (s : Session α σ ρ ε) : SessionEvent α ε → Session α σ ρ ε → Prop where
  | data (chunk : List α) : s.failure = none →
    Steps rd closedError s (.data chunk) ⟨s.buffer ++ chunk,s.failure,s.closed,s.phase.signal,s.log⟩
  | error (x : ε) : s.failure = none → Steps rd closedError s (.error x) ⟨s.buffer,some x,s.closed,s.phase.signal,s.log⟩
  | close : s.closed = false → Steps rd closedError s .close ⟨s.buffer,some (s.failure.getD closedError),true,s.phase.signal,s.log⟩
  | call : s.phase = .idle → Steps rd closedError s .call ⟨s.buffer,s.failure,s.closed,.running rd.start,s.log⟩
  | piece (c c' : σ) (rest : List α) : s.phase = .running c → rd.advance c s.buffer = some (.inl c',rest) →
    Steps rd closedError s .turn ⟨rest,s.failure,s.closed,.running c',s.log⟩
  | answer (c : σ) (r : ρ) (rest : List α) : s.phase = .running c → rd.advance c s.buffer = some (.inr r,rest) →
    Steps rd closedError s .turn ⟨rest,s.failure,s.closed,.idle,s.log ++ [.ok r]⟩
  | throw (c : σ) (x : ε) : s.phase = .running c → rd.advance c s.buffer = none → s.failure = some x →
    Steps rd closedError s .turn ⟨s.buffer,s.failure,s.closed,.idle,s.log ++ [.error x]⟩
  | wait (c : σ) : s.phase = .running c → rd.advance c s.buffer = none → s.failure = none →
    Steps rd closedError s .turn ⟨s.buffer,s.failure,s.closed,.waiting c,s.log⟩

theorem step_iff : rd.step closedError s e = some t ↔ Steps rd closedError s e t := by
  constructor
  · intro h
    cases e with
    | data chunk =>
      simp only [step,Option.ite_none_right_eq_some,Option.isNone_iff_eq_none] at h
      obtain rfl := Option.some.inj h.2
      exact .data chunk h.1
    | error x =>
      simp only [step,Option.ite_none_right_eq_some,Option.isNone_iff_eq_none] at h
      obtain rfl := Option.some.inj h.2
      exact .error x h.1
    | close =>
      simp only [step,Option.ite_none_left_eq_some,Bool.not_eq_true] at h
      obtain rfl := Option.some.inj h.2
      exact .close h.1
    | call =>
      simp only [step] at h
      split at h
      · rename_i hphase
        cases h
        exact .call hphase
      · cases h
    | turn =>
      simp only [step] at h
      split at h
      · rename_i c hphase
        split at h
        · rename_i c' rest hadvance
          cases h
          exact .piece c c' rest hphase hadvance
        · rename_i r rest hadvance
          cases h
          exact .answer c r rest hphase hadvance
        · rename_i hadvance
          split at h
          · rename_i x hx
            cases h
            exact .throw c x hphase hadvance hx
          · rename_i hx
            cases h
            exact .wait c hphase hadvance hx
      · cases h
  · intro h
    cases h with
    | data chunk hfailure => simp [step,hfailure]
    | error x hfailure => simp [step,hfailure]
    | close hclosed => simp [step,hclosed]
    | call hphase => simp [step,hphase]
    | piece c c' rest hphase hadvance => simp [step,hphase,hadvance]
    | answer c r rest hphase hadvance => simp [step,hphase,hadvance]
    | throw c x hphase hadvance hfailure => simp [step,hphase,hadvance,hfailure]
    | wait c hphase hadvance hfailure => simp [step,hphase,hadvance,hfailure]

theorem streamOf_cons (e : SessionEvent α ε) (es : List (SessionEvent α ε)) : streamOf (e :: es) = e.chunk?.getD [] ++ streamOf es := by
  cases e <;> rfl

theorem callsOf_cons (e : SessionEvent α ε) (es : List (SessionEvent α ε)) :
    callsOf (e :: es) = callsOf es + if e.isCall then 1 else 0 := List.countP_cons

/-- The answers that will have been given when `more` has come, with so many more calls. -/
def Session.future (rd : StreamReader α σ ρ) (s : Session α σ ρ ε) (more : List α) (failure : Option ε) (calls : Nat) :
    List (Except ε ρ) :=
  s.log ++
    match s.phase with
    | .idle => rd.answers failure calls (s.buffer ++ more)
    | .running c | .waiting c => settle failure (rd.answers failure calls) (rd.finish c (s.buffer ++ more))

theorem future_signal (b : List α) (phase : Phase σ) (failure failure' : Option ε) (closed closed' : Bool) (log : List (Except ε ρ)) :
    Session.future rd ⟨b,failure',closed',phase.signal,log⟩ = Session.future rd ⟨b,failure,closed,phase,log⟩ := by
  funext more f n
  cases phase <;> rfl

/-- No event changes what will have been answered. -/
theorem future_step (h : Steps rd closedError s e t) {more : List α} {failure : Option ε} {n : Nat}
    (hfailure : ∀ x ∈ s.failure, failure = some x ∧ more = []) :
    s.future rd (e.chunk?.getD [] ++ more) failure (n + if e.isCall then 1 else 0) = t.future rd more failure n := by
  cases h with
  | data chunk =>
    rw [future_signal _ _ s.failure _ s.closed]
    simp only [Session.future,SessionEvent.chunk?,Option.getD_some,List.append_assoc]
    rfl
  | error x =>
    rw [future_signal _ _ s.failure _ s.closed]
    rfl
  | close =>
    rw [future_signal _ _ s.failure _ s.closed]
    rfl
  | call hphase =>
    simp only [Session.future,hphase]
    rfl
  | piece c c' rest hphase hadvance =>
    simp only [Session.future,hphase,SessionEvent.chunk?,Option.getD_none,List.nil_append]
    rw [finish_more (rd.advance_append more hadvance)]
    rfl
  | answer c r rest hphase hadvance =>
    simp only [Session.future,hphase,SessionEvent.chunk?,Option.getD_none,List.nil_append]
    rw [finish_done (rd.advance_append more hadvance)]
    simp [settle,SessionEvent.isCall]
  | throw c x hphase hadvance hx =>
    obtain ⟨rfl,rfl⟩ := hfailure x hx
    simp only [Session.future,hphase,SessionEvent.chunk?,Option.getD_none,List.append_nil]
    rw [finish_none hadvance]
    simp [settle,SessionEvent.isCall]
  | wait c hphase =>
    simp only [Session.future,hphase]
    rfl

/-- A connection that has failed stays so. -/
theorem failed_step (h : Steps rd closedError s e t) {x : ε} (hx : s.failure = some x) : t.failure = some x ∧ e.chunk?.getD [] = [] := by
  cases h with
  | data chunk hnone | error y hnone =>
    rw [hx] at hnone
    cases hnone
  | close =>
    rw [hx]
    exact ⟨rfl,rfl⟩
  | call | piece | answer | throw | wait => exact ⟨hx,rfl⟩

theorem failed_run (h : rd.run closedError s es = some t) {x : ε} (hx : s.failure = some x) : t.failure = some x ∧ streamOf es = [] := by
  induction es generalizing s with
  | nil =>
    obtain rfl : s = t := by simpa [run,runActions] using h
    exact ⟨hx,rfl⟩
  | cons e es ih =>
    obtain ⟨m,-,hm,hrest⟩ := runActions_cons h
    obtain ⟨hfail,hnone⟩ := failed_step (step_iff.mp hm) hx
    obtain ⟨ht,hstream⟩ := ih hrest hfail
    rw [streamOf_cons,hnone,hstream]
    exact ⟨ht,rfl⟩

/-- What will have been answered is settled by the whole stream, the calls and the error at the end. -/
theorem future_run (h : rd.run closedError s es = some t) {n : Nat} :
    s.future rd (streamOf es) t.failure (n + callsOf es) = t.future rd [] t.failure n := by
  induction es generalizing s with
  | nil =>
    obtain rfl : s = t := by simpa [run,runActions] using h
    rfl
  | cons e es ih =>
    obtain ⟨m,-,hm,hrest⟩ := runActions_cons h
    rw [streamOf_cons,callsOf_cons,← Nat.add_assoc,future_step (step_iff.mp hm),ih hrest]
    intro x hx
    obtain ⟨hfail,-⟩ := failed_step (step_iff.mp hm) (Option.mem_def.mp hx)
    exact failed_run hrest hfail

/-- The call that is under way, and the answers. -/
def Session.called (s : Session α σ ρ ε) : Nat :=
  s.log.length +
    match s.phase with
    | .idle => 0
    | .running _ | .waiting _ => 1

theorem called_step (h : Steps rd closedError s e t) : t.called = s.called + if e.isCall then 1 else 0 := by
  have hsignal (b : List α) (f : Option ε) (closed : Bool) : Session.called ⟨b,f,closed,s.phase.signal,s.log⟩ = s.called := by
    unfold Session.called
    cases s.phase <;> rfl
  cases h with
  | data | error | close => exact hsignal _ _ _
  | call hphase => simp [Session.called,hphase,SessionEvent.isCall]
  | piece c c' rest hphase | answer c r rest hphase | throw c x hphase | wait c hphase =>
    simp [Session.called,hphase,SessionEvent.isCall]

theorem called_run (h : rd.run closedError s es = some t) : t.called = s.called + callsOf es := by
  induction es generalizing s with
  | nil =>
    obtain rfl : s = t := by simpa [run,runActions] using h
    rfl
  | cons e es ih =>
    obtain ⟨m,-,hm,hrest⟩ := runActions_cons h
    rw [ih hrest,called_step (step_iff.mp hm),callsOf_cons]
    omega

/-- A reader waits only where its next piece has not come whole and the connection has not failed. -/
def Session.Stalled (rd : StreamReader α σ ρ) (s : Session α σ ρ ε) : Prop :=
  ∀ c, s.phase = .waiting c → rd.advance c s.buffer = none ∧ s.failure = none

theorem signal_ne_waiting (phase : Phase σ) (c : σ) : phase.signal ≠ .waiting c := by
  cases phase <;> simp [Phase.signal]

theorem stalled_step (h : Steps rd closedError s e t) : t.Stalled rd := by
  intro c hc
  cases h with
  | data | error | close => exact absurd hc (signal_ne_waiting _ c)
  | call | piece | answer | throw => cases hc
  | wait c' hphase hadvance hfailure =>
    cases hc
    exact ⟨hadvance,hfailure⟩

theorem stalled_run (h : rd.run closedError s es = some t) (hs : s.Stalled rd) : t.Stalled rd :=
  runActions_invariant (Session.Stalled rd) (fun _ _ _ _ _ hstep => stalled_step (step_iff.mp hstep)) h hs

/-- A reader at rest has answered all that it will without more data. -/
theorem future_rest (hs : s.Stalled rd) (hrest : s.AtRest) : s.future rd [] s.failure 0 = s.log := by
  unfold Session.future
  cases hphase : s.phase with
  | idle => exact List.append_nil _
  | running c => exact absurd hphase (hrest c)
  | waiting c =>
    obtain ⟨hadvance,hfailure⟩ := hs c hphase
    dsimp only
    rw [List.append_nil,finish_none hadvance,hfailure]
    exact List.append_nil _

theorem log_eq_answers (h : rd.run closedError .fresh es = some t) (hrest : t.AtRest) :
    t.log = rd.answers t.failure (callsOf es) (streamOf es) := by
  have hfuture := future_run h (n := 0)
  rw [Nat.zero_add,future_rest (stalled_run h nofun) hrest] at hfuture
  exact hfuture.symm

end Runs

section OneChunk
variable {rd} {closedError : ε} {s m t : Session α σ ρ ε} {es : List (SessionEvent α ε)} {e : SessionEvent α ε}

theorem run_cons (h : Steps rd closedError s e m) (es : List (SessionEvent α ε)) :
    rd.run closedError s (e :: es) = rd.run closedError m es := by
  simp [run,runActions,List.foldlM_cons,step_iff.mpr h]

theorem run_append (h : rd.run closedError s es = some m) (es' : List (SessionEvent α ε)) :
    rd.run closedError s (es ++ es') = rd.run closedError m es' := by
  rw [run,runActions,List.foldlM_append,show es.foldlM _ s = some m from h]
  rfl

/-- Left to itself, a reader comes to rest. -/
theorem reaches_rest (rd : StreamReader α σ ρ) (closedError : ε) (s : Session α σ ρ ε) :
    ∃ k t, rd.run closedError s (List.replicate k .turn) = some t ∧ t.AtRest ∧ t.failure = s.failure := by
  obtain ⟨buffer,failure,closed,phase,log⟩ := s
  cases phase with
  | idle => exact ⟨0,_,rfl,nofun,rfl⟩
  | waiting c => exact ⟨0,_,rfl,nofun,rfl⟩
  | running c =>
    induction hn : rd.size c buffer using Nat.strongRecOn generalizing c buffer with
    | ind n ih =>
      cases hadvance : rd.advance c buffer with
      | none =>
        cases failure with
        | none => exact ⟨1,_,run_cons (.wait c rfl hadvance rfl) [],nofun,rfl⟩
        | some x => exact ⟨1,_,run_cons (.throw c x rfl hadvance rfl) [],nofun,rfl⟩
      | some next =>
        obtain ⟨result,rest⟩ := next
        cases result with
        | inl c' =>
          obtain ⟨k,t,hrun,hrest,hfailure⟩ := ih _ (hn ▸ rd.size_lt hadvance) rest c' rfl
          exact ⟨k+1,t,(run_cons (.piece c c' rest rfl hadvance) _).trans hrun,hrest,hfailure⟩
        | inr r => exact ⟨1,_,run_cons (.answer c r rest rfl hadvance) [],nofun,rfl⟩

theorem chunksOf_append (es es' : List (SessionEvent α ε)) : chunksOf (es ++ es') = chunksOf es ++ chunksOf es' := List.filterMap_append

theorem callsOf_append (es es' : List (SessionEvent α ε)) : callsOf (es ++ es') = callsOf es + callsOf es' := List.countP_append

theorem chunksOf_turns (k : Nat) : chunksOf (List.replicate k (.turn : SessionEvent α ε)) = [] := by
  induction k with
  | zero => rfl
  | succ k ih => exact ih

theorem callsOf_turns (k : Nat) : callsOf (List.replicate k (.turn : SessionEvent α ε)) = 0 := by
  induction k with
  | zero => rfl
  | succ k ih => exact ih

/-- Calls that have their answers in the buffer can be made, and one more. -/
theorem run_calls (rd : StreamReader α σ ρ) (closedError : ε) {s : Session α σ ρ ε} {n : Nat}
    (hidle : s.phase = .idle) (hn : n ≤ (rd.answers s.failure n s.buffer).length + 1) :
    ∃ es t, rd.run closedError s es = some t ∧ t.AtRest ∧ chunksOf es = [] ∧ callsOf es = n ∧ t.failure = s.failure := by
  induction n generalizing s with
  | zero =>
    refine ⟨[],s,rfl,fun c hc => ?_,rfl,rfl,rfl⟩
    rw [hidle] at hc
    cases hc
  | succ n ih =>
    have hcall : Steps rd closedError s .call ⟨s.buffer,s.failure,s.closed,.running rd.start,s.log⟩ := .call hidle
    obtain ⟨k,u,hturns,hrest,hfailure⟩ := reaches_rest rd closedError ⟨s.buffer,s.failure,s.closed,.running rd.start,s.log⟩
    have hrun : rd.run closedError s (.call :: List.replicate k .turn) = some u := (run_cons hcall _).trans hturns
    have hcalls : callsOf (.call :: List.replicate k (.turn : SessionEvent α ε)) = 1 := by rw [callsOf_cons,callsOf_turns]; rfl
    have hnochunk : chunksOf (.call :: List.replicate k (.turn : SessionEvent α ε)) = [] :=
      (List.filterMap_cons_none rfl).trans (chunksOf_turns k)
    have hstream : streamOf (.call :: List.replicate k (.turn : SessionEvent α ε)) = [] := congrArg List.flatten hnochunk
    have hcalled := called_run hrun
    have hfuture := future_run hrun (n := n)
    rw [hcalls,hstream] at hfuture
    rw [hcalls] at hcalled
    simp only [Session.future,Session.called,hidle,List.append_nil,hfailure] at hfuture hcalled
    cases hphase : u.phase with
    | idle =>
      rw [hphase] at hfuture hcalled
      have hlen := congrArg List.length hfuture
      simp only [List.length_append,Nat.add_zero] at hlen hcalled
      obtain ⟨es,t,hes,htrest,hchunks,hcount,htfailure⟩ := ih (s := u) hphase (by rw [hfailure]; dsimp only; omega)
      refine ⟨.call :: List.replicate k .turn ++ es,t,(run_append hrun es).trans hes,htrest,?_,?_,htfailure.trans hfailure⟩
      · rw [chunksOf_append,hnochunk,hchunks,List.append_nil]
      · rw [callsOf_append,hcalls,hcount,Nat.add_comm]
    | running c => exact absurd hphase (hrest c)
    | waiting c =>
      -- the last of the calls has no answer yet
      obtain ⟨hadvance,hnone⟩ := stalled_run hrun (fun c hc => by rw [hidle] at hc; cases hc) c hphase
      rw [hphase] at hfuture hcalled
      dsimp only at hfuture
      rw [finish_none hadvance,← hfailure,hnone] at hfuture
      have hlen := congrArg List.length hfuture
      rw [← hfailure,hnone] at hn
      simp only [List.length_append,Nat.add_zero,settle,List.length_nil] at hlen hcalled
      obtain rfl : n = 0 := by omega
      exact ⟨_,u,hrun,hrest,hnochunk,hcalls,hfailure⟩

/-- The same stream can come in one chunk, with the same error after it and the same calls. -/
theorem exists_oneChunk (h : rd.run closedError .fresh es = some t) (hrest : t.AtRest) :
    ∃ es' t', rd.run closedError .fresh es' = some t' ∧ t'.AtRest ∧ chunksOf es' =
    [streamOf es] ∧ callsOf es' = callsOf es ∧ t'.failure = t.failure := by
  have hlog := log_eq_answers h hrest
  have hcalls : callsOf es ≤ t.log.length + 1 := by
    have hcalled := called_run h
    simp only [Session.called,Session.fresh,List.length_nil,Nat.zero_add] at hcalled
    split at hcalled <;> omega
  rw [hlog] at hcalls
  obtain ⟨es₀,hreach,hchunk,hnone⟩ : ∃ es₀, rd.run closedError .fresh es₀ = some ⟨streamOf es,t.failure,false,.idle,[]⟩ ∧
      chunksOf es₀ = [streamOf es] ∧ callsOf es₀ = 0 := by
    have hdata : Steps rd closedError (.fresh : Session α σ ρ ε) (.data (streamOf es)) ⟨streamOf es,none,false,.idle,[]⟩ := .data _ rfl
    cases t.failure with
    | none => exact ⟨[.data (streamOf es)],run_cons hdata [],rfl,rfl⟩
    | some x =>
      have herror : Steps rd closedError (⟨streamOf es,none,false,.idle,[]⟩ : Session α σ ρ ε) (.error x) ⟨streamOf es,
        some x,false,.idle,[]⟩ :=
        .error x rfl
      exact ⟨[.data (streamOf es),.error x],(run_cons hdata _).trans (run_cons herror []),rfl,rfl⟩
  obtain ⟨es',t',hrun,hrest',hchunks,hcount,hfailure⟩ := run_calls rd closedError
    (s := ⟨streamOf es,t.failure,false,.idle,[]⟩) rfl hcalls
  refine ⟨es₀ ++ es',t',(run_append hreach es').trans hrun,hrest',?_,?_,hfailure⟩
  · rw [chunksOf_append,hchunk,hchunks,List.append_nil]
  · rw [callsOf_append,hnone,hcount,Nat.zero_add]

/-- The answers to the same calls are the same, however the stream is cut. -/
theorem log_eq_of_stream (h : rd.run closedError .fresh es = some t) (hrest : t.AtRest)
    {es' : List (SessionEvent α ε)} {t' : Session α σ ρ ε}
    (h' : rd.run closedError .fresh es' = some t') (hrest' : t'.AtRest) (hstream : streamOf es' = streamOf es)
    (hcalls : callsOf es' = callsOf es) (hfailure : t'.failure = t.failure) : t'.log = t.log := by
  rw [log_eq_answers h hrest,log_eq_answers h' hrest',hstream,hcalls,hfailure]

end OneChunk
end StreamReader
end JustMail.Foundation
