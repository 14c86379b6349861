import JustMail.Webmail.ImapEviction

/-! The calls of `run` in the order they are made, and the turns their callbacks take while
no session is purged. -/
namespace JustMail.Webmail
open Foundation

section Statement

inductive CallbackEvent where
  | begins (call : Nat)
  | ends (call : Nat)
  deriving DecidableEq

/-- The pool with its calls of `run`, numbered in the order they are made. `calls` has
those on the chain of an entry, `history` what the callbacks of a key have done. -/
structure TracedPool where
  pool : ImapPool
  calls : Nat → List Nat
  nextCall : Nat
  history : JsString → List CallbackEvent

def TracedPool.initial : TracedPool := ⟨.initial,fun _ => [],0,fun _ => []⟩

def PoolEntry.executing (x : PoolEntry) : Bool :=
  match x.chain with
  | .running _ :: _ => true
  | _ => false

namespace TracedPool
variable (s : TracedPool)

def setCalls (e : Nat) (calls : List Nat) : TracedPool :=
  { s with calls := fun k => if k = e then calls else s.calls k }

def note (key : JsString) (events : List CallbackEvent) : TracedPool :=
  { s with history := fun k => if k = key then s.history k ++ events else s.history k }

def keyOf (e : Nat) : JsString := (s.pool.entries e).key

/-- The calls and callbacks after a step that leads to `pool`. A call that cannot connect
is rejected without its callback. -/
def after (pool : ImapPool) : PoolAction → TracedPool
  | .run sessionId mailboxId now =>
    let e := (s.pool.entryFor (imapKey sessionId mailboxId) now).2
    { s.setCalls e (s.calls e ++ [s.nextCall]) with pool := pool, nextCall := s.nextCall + 1 }
  | .start e _ | .connected e _ =>
    if (pool.entries e).executing then { s.note (s.keyOf e) ((s.calls e).take 1 |>.map .begins) with pool := pool }
    else { s with pool := pool }
  | .settle e => { (s.note (s.keyOf e) ((s.calls e).take 1 |>.map .ends)).setCalls e (s.calls e).tail with pool := pool }
  | .connectFailed e => { s.setCalls e (s.calls e).tail with pool := pool }
  | _ => { s with pool := pool }

end TracedPool

def tracedStep (cfg : PoolConfig) (s : TracedPool) (a : PoolAction) : Option TracedPool :=
  (poolStep cfg s.pool a).map fun pool => s.after pool a

def NoPurge (_ : TracedPool) : PoolAction → Prop
  | .purgeSession _ => False
  | _ => True

instance (s : TracedPool) : DecidablePred (NoPurge s) := fun a =>
  match a with
  | .purgeSession _ => .isFalse id
  | .run _ _ _ | .start _ _ | .connected _ _ | .connectFailed _ | .settle _ | .finish _ _ | .sweepIdle _ | .lose _ => .isTrue trivial

def served (calls : List Nat) : List CallbackEvent := calls.flatMap fun call => [.begins call,.ends call]

/-- The callbacks of the calls, one after the other, in the order of the calls. -/
def InTurn (events : List CallbackEvent) : Prop :=
  ∃ done : List Nat, ∃ current : Option Nat, events = served done ++ current.toList.map .begins ∧
    (done ++ current.toList).Pairwise (· < ·)

/-- No call of `run` is in flight. -/
def ImapPool.Quiet (s : ImapPool) : Prop := ∀ e, (s.entries e).chain = [] ∧ (s.entries e).settling = 0

end Statement

section Turns
variable {cfg : PoolConfig} {s t : TracedPool} {e : Nat} {key : JsString} {rest : List OpPhase} {op : OpPhase}

def TracedPool.executing (s : TracedPool) (e : Nat) : Bool := (s.pool.entries e).executing

/-- The calls of a key whose callbacks have ended, and the one whose callback runs. Those
that wait were all made later. -/
def Turn (s : TracedPool) (key : JsString) : Prop :=
  ∃ done : List Nat, done.Pairwise (· < ·) ∧ (∀ d ∈ done, d < s.nextCall) ∧
    (∀ e, s.keyOf e = key → ∀ c ∈ s.calls e, ∀ d ∈ done, d < c) ∧
    (((∀ e, s.keyOf e = key → s.executing e = false) ∧ s.history key = served done) ∨
      ∃ e c calls, s.keyOf e = key ∧ s.executing e = true ∧ s.calls e = c :: calls ∧ s.history key = served done ++ [.begins c])

structure TraceInv (s : TracedPool) : Prop where
  held : Held s.pool
  calls : ∀ e, (s.calls e).length = (s.pool.entries e).chain.length
  order : ∀ e, (s.calls e).Pairwise (· < ·) ∧ ∀ c ∈ s.calls e, c < s.nextCall
  turns : ∀ key, Turn s key

theorem traceInv_initial : TraceInv .initial := by
  refine ⟨⟨poolInv_initial,fun e he => absurd he (Nat.lt_irrefl 0),fun e c hc => ?_⟩,fun _ => rfl,fun _ => ⟨.nil,?_⟩,fun key => ?_⟩
  · simp [TracedPool.initial,ImapPool.initial] at hc
  · simp [TracedPool.initial]
  · exact ⟨[],.nil,by simp,by simp,.inl ⟨fun _ _ => rfl,rfl⟩⟩

theorem Turn.inTurn (h : Turn s key) : InTurn (s.history key) := by
  obtain ⟨done,hsorted,-,hwaiting,⟨-,hhistory⟩ | ⟨e,c,calls,hkey,-,hcalls,hhistory⟩⟩ := h
  · exact ⟨done,none,by simpa using hhistory,by simpa using hsorted⟩
  · refine ⟨done,some c,hhistory,List.pairwise_append.mpr ⟨hsorted,List.pairwise_singleton _ _,fun d hd c' hc' => ?_⟩⟩
    rw [List.mem_singleton.mp hc']
    exact hwaiting e hkey c (by rw [hcalls]; exact List.mem_cons_self) d hd

/-- What happens to the calls of other keys does not matter. -/
theorem Turn.congr (h : Turn s key) (hnext : s.nextCall ≤ t.nextCall) (hhistory : t.history key = s.history key)
    (hkey : ∀ e, t.keyOf e = key ↔ s.keyOf e = key)
    (hcalls : ∀ e, s.keyOf e = key → t.calls e = s.calls e ∧ t.executing e = s.executing e) : Turn t key := by
  obtain ⟨done,hsorted,hlt,hwaiting,hturn⟩ := h
  refine ⟨done,hsorted,fun d hd => (hlt d hd).trans_le hnext,fun e he c hc => ?_,?_⟩
  · rw [hkey] at he
    rw [(hcalls e he).1] at hc
    exact hwaiting e he c hc
  · rcases hturn with ⟨hnone,hold⟩ | ⟨e,c,calls,he,hexec,hcs,hold⟩
    · refine .inl ⟨fun e he => ?_,hhistory.trans hold⟩
      rw [hkey] at he
      rw [(hcalls e he).2]
      exact hnone e he
    · obtain ⟨hsame,hsameExec⟩ := hcalls e he
      exact .inr ⟨e,c,calls,(hkey e).mpr he,hsameExec.trans hexec,hsame.trans hcs,hhistory.trans hold⟩

theorem PoolEntry.chain_of_executing {x : PoolEntry} (h : x.executing = true) : ∃ c rest, x.chain = .running c :: rest := by
  rw [PoolEntry.executing] at h
  split at h
  · rename_i c rest hchain
    exact ⟨c,rest,hchain⟩
  · simp at h

theorem TraceInv.busy (h : TraceInv s) (hchain : (s.pool.entries e).chain ≠ []) : 0 < (s.pool.entries e).inUse := by
  have hinUse := (h.held.inv.entries e).inUse
  have hpos := List.length_pos_iff.mpr hchain
  omega

/-- Only one entry of a key can be executing, and only its first call. -/
theorem TraceInv.only (h : TraceInv s) {e' : Nat} (hchain : (s.pool.entries e).chain ≠ []) (hexec : s.executing e' = true)
    (hkey : s.keyOf e' = s.keyOf e) : e' = e := by
  obtain ⟨c,rest,hrunning⟩ := PoolEntry.chain_of_executing hexec
  exact h.held.unique (h.busy (by simp [hrunning])) (h.busy hchain) hkey

theorem TraceInv.cons_calls (h : TraceInv s) (hchain : (s.pool.entries e).chain = op :: rest) :
    ∃ c calls, s.calls e = c :: calls ∧ calls.length = rest.length := by
  have hlength := h.calls e
  rw [hchain] at hlength
  cases hcalls : s.calls e with
  | nil => simp [hcalls] at hlength
  | cons c calls =>
    rw [hcalls,List.length_cons,List.length_cons,Nat.succ.injEq] at hlength
    exact ⟨c,calls,rfl,hlength⟩

/-- A step that moves no call. -/
theorem TraceInv.still (h : TraceInv s) {pool : ImapPool} (hheld : Held pool)
    (hentries : ∀ e, (pool.entries e).key = (s.pool.entries e).key ∧ (pool.entries e).chain = (s.pool.entries e).chain) :
    TraceInv { s with pool := pool } := by
  refine ⟨hheld,fun e => ?_,h.order,fun key => (h.turns key).congr le_rfl rfl (fun e => ?_) fun e _ => ⟨rfl,?_⟩⟩
  · rw [(hentries e).2]
    exact h.calls e
  · simp only [TracedPool.keyOf,(hentries e).1]
  · simp only [TracedPool.executing,PoolEntry.executing,(hentries e).2]

/-- The callback of the first call begins. -/
theorem TraceInv.begins (h : TraceInv s) {pool : ImapPool} {c : Nat} (hheld : Held pool)
    (hchain : (s.pool.entries e).chain = op :: rest) (hwaits : s.executing e = false)
    (hkey : ∀ k, (pool.entries k).key = (s.pool.entries k).key) (hself : (pool.entries e).chain = .running c :: rest)
    (hother : ∀ k, k ≠ e → (pool.entries k).chain = (s.pool.entries k).chain) :
    TraceInv { s.note (s.keyOf e) ((s.calls e).take 1 |>.map .begins) with pool := pool } := by
  obtain ⟨call,calls,hcalls,hlength⟩ := h.cons_calls hchain
  have hexec : ∀ k, k ≠ e → (pool.entries k).executing = s.executing k := by
    intro k hk
    simp only [TracedPool.executing,PoolEntry.executing,hother k hk]
  refine ⟨hheld,fun k => ?_,h.order,fun key => ?_⟩
  · by_cases hk : k = e
    · subst hk
      change (s.calls k).length = (pool.entries k).chain.length
      rw [hself,hcalls,List.length_cons,List.length_cons,hlength]
    · change (s.calls k).length = (pool.entries k).chain.length
      rw [hother k hk]
      exact h.calls k
  by_cases hsame : key = s.keyOf e
  · subst hsame
    obtain ⟨done,hsorted,hlt,hwaiting,⟨hnone,hhistory⟩ | ⟨e',c',calls',hkey',hexec',hcalls',hhistory⟩⟩ := h.turns (s.keyOf e)
    · refine ⟨done,hsorted,hlt,fun k hk => hwaiting k ?_,.inr ⟨e,call,calls,hkey e,?_,hcalls,?_⟩⟩
      · simpa only [TracedPool.keyOf,hkey] using hk
      · simp only [TracedPool.executing,PoolEntry.executing,hself]
      · simp only [TracedPool.note,if_pos,hhistory,hcalls,List.take_succ_cons,List.take_zero,List.map_cons,List.map_nil]
    · obtain rfl : e' = e := h.only (by simp [hchain]) hexec' hkey'
      simp [hwaits] at hexec'
  · refine (h.turns key).congr le_rfl (if_neg hsame) (fun k => ?_) fun k hk => ⟨rfl,hexec k fun hke => hsame ?_⟩
    · simp only [TracedPool.keyOf,hkey]
    · rw [← hk,hke]

/-- The first call has to connect. -/
theorem TraceInv.connects (h : TraceInv s)
    (hheld : Held (s.pool.modify e fun x => { x with chain := .connecting :: rest }))
    (hchain : (s.pool.entries e).chain = op :: rest) (hwaits : s.executing e = false) :
    TraceInv { s with pool := s.pool.modify e fun x => { x with chain := .connecting :: rest } } := by
  have hentry : ∀ k, ((s.pool.modify e fun x => { x with chain := .connecting :: rest }).entries k).key = s.keyOf k ∧
      ((s.pool.modify e fun x => { x with chain := .connecting :: rest }).entries k).executing = s.executing k ∧
      ((s.pool.modify e fun x => { x with chain := .connecting :: rest }).entries k).chain.length =
        (s.pool.entries k).chain.length := by
    intro k
    by_cases hk : k = e
    · rw [hk,s.pool.modify_self,hwaits,hchain]
      exact ⟨rfl,rfl,rfl⟩
    · rw [s.pool.modify_ne e _ hk]
      exact ⟨rfl,rfl,rfl⟩
  refine ⟨hheld,fun k => (h.calls k).trans (hentry k).2.2.symm,h.order,fun key =>
    (h.turns key).congr le_rfl rfl (fun k => ?_) fun k _ => ⟨rfl,(hentry k).2.1⟩⟩
  rw [← (hentry k).1]
  rfl

theorem executing_queued {chain : List OpPhase} (h : ∀ op ∈ chain, op = .queued) (x : PoolEntry) :
    ({ x with chain := chain }).executing = false := by
  cases chain with
  | nil => rfl
  | cons op chain =>
    obtain rfl := h op List.mem_cons_self
    rfl

theorem served_append (done : List Nat) (call : Nat) : served (done ++ [call]) = served done ++ [.begins call] ++ [.ends call] := by
  simp [served]

/-- The first call of the entry leaves the chain. -/
def TracedPool.leave (s : TracedPool) (e : Nat) (rest : List OpPhase) : TracedPool :=
  { s.setCalls e (s.calls e).tail with pool := s.pool.modify e fun x => { x with chain := rest, settling := x.settling + 1 } }

section Leave
variable {op : OpPhase}

theorem leave_self (s : TracedPool) (e : Nat) (rest : List OpPhase) : (s.leave e rest).pool.entries e =
    { s.pool.entries e with chain := rest, settling := (s.pool.entries e).settling + 1 } := if_pos rfl

theorem leave_ne {k : Nat} (h : k ≠ e) : (s.leave e rest).pool.entries k = s.pool.entries k := if_neg h

theorem leave_executing (h : TraceInv s) (hchain : (s.pool.entries e).chain = op :: rest) (k : Nat) :
    (s.leave e rest).executing k = if k = e then false else s.executing k := by
  have htail := (h.held.inv.entries e).tail
  rw [hchain] at htail
  split
  · rename_i hk
    rw [hk,TracedPool.executing,leave_self]
    exact executing_queued htail { s.pool.entries e with settling := (s.pool.entries e).settling + 1 }
  · rename_i hk
    rw [TracedPool.executing,leave_ne hk]
    rfl

theorem leave_keyOf (k : Nat) : (s.leave e rest).keyOf k = s.keyOf k := by
  by_cases hk : k = e
  · rw [hk,TracedPool.keyOf,leave_self]
    rfl
  · rw [TracedPool.keyOf,leave_ne hk]
    rfl

theorem leave_calls (k : Nat) : (s.leave e rest).calls k = if k = e then (s.calls e).tail else s.calls k := rfl

theorem mem_leave_calls {k c : Nat} (hc : c ∈ (s.leave e rest).calls k) : c ∈ s.calls k := by
  rw [leave_calls] at hc
  split at hc
  · rename_i hk
    rw [hk]
    exact List.mem_of_mem_tail hc
  · exact hc

theorem leave_order (rest : List OpPhase) (h : TraceInv s) (k : Nat) :
    ((s.leave e rest).calls k).Pairwise (· < ·) ∧ ∀ c ∈ (s.leave e rest).calls k, c < s.nextCall := by
  obtain ⟨hsorted,hlt⟩ := h.order k
  refine ⟨?_,fun c hc => hlt c (mem_leave_calls hc)⟩
  rw [leave_calls]
  split
  · rename_i hk
    subst hk
    exact hsorted.sublist (List.tail_sublist _)
  · exact hsorted

theorem leave_length (h : TraceInv s) (hchain : (s.pool.entries e).chain = op :: rest) (k : Nat) :
    ((s.leave e rest).calls k).length = ((s.leave e rest).pool.entries k).chain.length := by
  have hlength := h.calls k
  rw [leave_calls]
  split
  · rename_i hk
    rw [hk,hchain] at hlength
    rw [hk,leave_self,List.length_tail,hlength]
    rfl
  · rename_i hk
    rw [leave_ne hk]
    exact hlength

/-- Keys other than that of the entry do not notice. -/
theorem leave_turn (h : TraceInv s) (hchain : (s.pool.entries e).chain = op :: rest) (hkey : key ≠ s.keyOf e) :
    Turn (s.leave e rest) key := by
  refine (h.turns key).congr le_rfl rfl (fun k => by rw [leave_keyOf]) fun k hk => ?_
  have hne : k ≠ e := fun hke => hkey (by rw [← hk,hke])
  rw [leave_calls,leave_executing h hchain,if_neg hne,if_neg hne]
  exact ⟨rfl,rfl⟩

/-- A call that waits for a connection is rejected. -/
theorem TraceInv.rejected (h : TraceInv s) (hheld : Held (s.leave e rest).pool) (hchain : (s.pool.entries e).chain = op :: rest)
    (hwaits : s.executing e = false) : TraceInv (s.leave e rest) := by
  refine ⟨hheld,leave_length h hchain,leave_order rest h,fun key => ?_⟩
  by_cases hkey : key = s.keyOf e
  · subst hkey
    obtain ⟨done,hsorted,hlt,hwaiting,⟨hnone,hhistory⟩ | ⟨e',c',calls',hkey',hexec',hcalls',hhistory⟩⟩ := h.turns (s.keyOf e)
    · refine ⟨done,hsorted,hlt,fun k hk c hc => hwaiting k ?_ c (mem_leave_calls hc),.inl ⟨fun k hk => ?_,hhistory⟩⟩
      · rwa [leave_keyOf] at hk
      · rw [leave_keyOf] at hk
        rw [leave_executing h hchain,hnone k hk]
        split <;> rfl
    · obtain rfl : e' = e := h.only (by simp [hchain]) hexec' hkey'
      simp [hwaits] at hexec'
  · exact leave_turn h hchain hkey

/-- The callback of the first call ends, with a result or an exception. -/
theorem TraceInv.ends (h : TraceInv s) (hheld : Held (s.leave e rest).pool) (hchain : (s.pool.entries e).chain = op :: rest)
    (hexec : s.executing e = true) :
    TraceInv ((s.leave e rest).note (s.keyOf e) ((s.calls e).take 1 |>.map .ends)) := by
  refine ⟨hheld,leave_length h hchain,leave_order rest h,fun key => ?_⟩
  by_cases hkey : key = s.keyOf e
  · subst hkey
    obtain ⟨done,hsorted,hlt,hwaiting,⟨hnone,-⟩ | ⟨e',call,calls,hkey',hexec',hcalls,hhistory⟩⟩ := h.turns (s.keyOf e)
    · simp [hnone e rfl] at hexec
    obtain rfl : e' = e := h.only (by simp [hchain]) hexec' hkey'
    have hcall : call ∈ s.calls e' := by rw [hcalls]; exact List.mem_cons_self
    obtain ⟨hfirst,-⟩ := List.pairwise_cons.mp (hcalls ▸ (h.order e').1)
    refine ⟨done ++ [call],?_,?_,fun k hk c hc d hd => ?_,.inl ⟨fun k hk => ?_,?_⟩⟩
    · refine List.pairwise_append.mpr ⟨hsorted,List.pairwise_singleton _ _,fun d hd c hc => ?_⟩
      rw [List.mem_singleton.mp hc]
      exact hwaiting e' rfl call hcall d hd
    · intro d hd
      rcases List.mem_append.mp hd with hd | hd
      · exact hlt d hd
      · rw [List.mem_singleton.mp hd]
        exact (h.order e').2 call hcall
    · have hk : s.keyOf k = s.keyOf e' := (leave_keyOf k).symm.trans hk
      have hc : c ∈ (s.leave e' rest).calls k := hc
      rcases List.mem_append.mp hd with hd | hd
      · exact hwaiting k hk c (mem_leave_calls hc) d hd
      · rw [List.mem_singleton.mp hd]
        have hke : k = e' := by
          have hne : s.calls k ≠ [] := List.ne_nil_of_mem (mem_leave_calls hc)
          have hlength := h.calls k
          have hbusy : (s.pool.entries k).chain ≠ [] := by
            intro hnil
            rw [hnil] at hlength
            exact hne (List.eq_nil_of_length_eq_zero hlength)
          exact (h.only hbusy hexec hk.symm).symm
        rw [leave_calls,if_pos hke,hcalls] at hc
        exact hfirst c hc
    · have hk : s.keyOf k = s.keyOf e' := (leave_keyOf k).symm.trans hk
      change (s.leave e' rest).executing k = false
      rw [leave_executing h hchain]
      split
      · rfl
      · rename_i hne
        exact Bool.eq_false_iff.mpr fun hrunning => hne (h.only (by simp [hchain]) hrunning hk)
    · have hold : (s.leave e' rest).history (s.keyOf e') = served done ++ [.begins call] := hhistory
      rw [served_append]
      simp only [TracedPool.note,if_pos,hold,hcalls,List.take_succ_cons,List.take_zero,List.map_cons,List.map_nil]
  · exact (leave_turn h hchain hkey).congr le_rfl (if_neg hkey) (fun _ => Iff.rfl) fun _ _ => ⟨rfl,rfl⟩

end Leave

theorem entryFor_chain (key : JsString) (now : Nat) (h : PoolInv s.pool) (k : Nat) :
    ((s.pool.entryFor key now).1.entries k).chain = (s.pool.entries k).chain ∧
      (((s.pool.entryFor key now).1.entries k).key = (s.pool.entries k).key ∨ (s.pool.entries k).chain = []) := by
  rw [ImapPool.entryFor]
  split
  · exact ⟨rfl,.inl rfl⟩
  · by_cases hk : k = s.pool.nextEntry
    · have hchain := (h.fresh k hk.ge).2.1
      rw [hchain]
      exact ⟨congrArg PoolEntry.chain (if_pos hk),.inr rfl⟩
    · exact ⟨congrArg PoolEntry.chain (if_neg hk),.inl (congrArg PoolEntry.key (if_neg hk))⟩

section Called
variable (sessionId mailboxId : JsString) (now : Nat)

/-- After a call of `run`. -/
def TracedPool.called (s : TracedPool) (sessionId mailboxId : JsString) (now : Nat) : TracedPool :=
  s.after (s.pool.run (imapKey sessionId mailboxId) now) (.run sessionId mailboxId now)

/-- The entry that the call goes to. -/
def TracedPool.calledEntry (s : TracedPool) (sessionId mailboxId : JsString) (now : Nat) : Nat :=
  (s.pool.entryFor (imapKey sessionId mailboxId) now).2

theorem called_calls (k : Nat) : (s.called sessionId mailboxId now).calls k =
    if k = s.calledEntry sessionId mailboxId now then s.calls (s.calledEntry sessionId mailboxId now) ++ [s.nextCall]
    else s.calls k := rfl

theorem called_chain (h : TraceInv s) (k : Nat) : ((s.called sessionId mailboxId now).pool.entries k).chain =
    (s.pool.entries k).chain ++ if k = s.calledEntry sessionId mailboxId now then [.queued] else [] := by
  have hchain := (entryFor_chain (imapKey sessionId mailboxId) now h.held.inv k).1
  change ((s.pool.run (imapKey sessionId mailboxId) now).entries k).chain = _
  rw [TracedPool.calledEntry]
  split
  · rename_i hk
    rw [hk] at hchain
    rw [hk,ImapPool.run,enqueue_self,hchain]
  · rename_i hk
    rw [ImapPool.run,enqueue_ne _ hk,hchain,List.append_nil]

/-- The key of an entry changes only where no call is on its way. -/
theorem called_keyOf (h : TraceInv s) (k : Nat) :
    (s.called sessionId mailboxId now).keyOf k = s.keyOf k ∨ s.calls k = [] := by
  have hkey : ((s.pool.run (imapKey sessionId mailboxId) now).entries k).key =
      ((s.pool.entryFor (imapKey sessionId mailboxId) now).1.entries k).key := by
    by_cases hk : k = (s.pool.entryFor (imapKey sessionId mailboxId) now).2
    · rw [hk,ImapPool.run,enqueue_self]
    · rw [ImapPool.run,enqueue_ne _ hk]
  rcases (entryFor_chain (imapKey sessionId mailboxId) now h.held.inv k).2 with hsame | hnil
  · exact .inl (hkey.trans hsame)
  · have hlength := h.calls k
    rw [hnil] at hlength
    exact .inr (List.eq_nil_of_length_eq_zero hlength)

theorem called_executing (h : TraceInv s) (k : Nat) : (s.called sessionId mailboxId now).executing k = s.executing k := by
  rw [TracedPool.executing,TracedPool.executing,PoolEntry.executing,PoolEntry.executing,called_chain sessionId mailboxId now h]
  cases (s.pool.entries k).chain with
  | nil => by_cases hk : k = s.calledEntry sessionId mailboxId now <;> simp [hk]
  | cons op ops => cases op <;> rfl

theorem called_order (h : TraceInv s) (k : Nat) : ((s.called sessionId mailboxId now).calls k).Pairwise (· < ·) ∧
    ∀ c ∈ (s.called sessionId mailboxId now).calls k, c < s.nextCall + 1 := by
  obtain ⟨hsorted,hlt⟩ := h.order k
  rw [called_calls]
  split
  · rename_i hk
    rw [← hk]
    refine ⟨List.pairwise_append.mpr ⟨hsorted,List.pairwise_singleton _ _,fun c hc c' hc' => ?_⟩,fun c hc => ?_⟩
    · rw [List.mem_singleton.mp hc']
      exact hlt c hc
    · rcases List.mem_append.mp hc with hc | hc
      · exact (hlt c hc).trans (Nat.lt_succ_self _)
      · rw [List.mem_singleton.mp hc]
        exact Nat.lt_succ_self _
  · exact ⟨hsorted,fun c hc => (hlt c hc).trans (Nat.lt_succ_self _)⟩

theorem TraceInv.calls_of_executing (h : TraceInv s) {k : Nat} (hk : s.executing k = true) : s.calls k ≠ [] := by
  intro hnil
  obtain ⟨c,rest,hchain⟩ := PoolEntry.chain_of_executing hk
  have hlength := h.calls k
  rw [hnil,hchain] at hlength
  simp at hlength

/-- Every call that waits comes after those whose callbacks have ended. -/
theorem called_waiting (h : TraceInv s) {done : List Nat} (hlt : ∀ d ∈ done, d < s.nextCall)
    (hwaiting : ∀ e, s.keyOf e = key → ∀ c ∈ s.calls e, ∀ d ∈ done, d < c) (k : Nat)
    (hk : (s.called sessionId mailboxId now).keyOf k = key) (c : Nat) (hc : c ∈ (s.called sessionId mailboxId now).calls k)
    (d : Nat) (hd : d ∈ done) : d < c := by
  have hold : c ∈ s.calls k → d < c := by
    intro hmem
    rcases called_keyOf sessionId mailboxId now h k with hsame | hnil
    · exact hwaiting k (hsame.symm.trans hk) c hmem d hd
    · rw [hnil] at hmem
      exact absurd hmem List.not_mem_nil
  rw [called_calls] at hc
  split at hc
  · rename_i hke
    rcases List.mem_append.mp hc with hc | hc
    · exact hold (hke ▸ hc)
    · rw [List.mem_singleton.mp hc]
      exact hlt d hd
  · exact hold hc

theorem called_turn (h : TraceInv s) (key : JsString) : Turn (s.called sessionId mailboxId now) key := by
  obtain ⟨done,hsorted,hlt,hwaiting,hturn⟩ := h.turns key
  refine ⟨done,hsorted,fun d hd => (hlt d hd).trans (Nat.lt_succ_self _),called_waiting sessionId mailboxId now h hlt hwaiting,?_⟩
  have hsame : ∀ k, s.executing k = true → (s.called sessionId mailboxId now).keyOf k = s.keyOf k := fun k hk =>
    (called_keyOf sessionId mailboxId now h k).resolve_right (h.calls_of_executing hk)
  have hexec := called_executing sessionId mailboxId now h
  rcases hturn with ⟨hnone,hhistory⟩ | ⟨k,c,calls,hk,hrunning,hcs,hhistory⟩
  · refine .inl ⟨fun k hk => ?_,hhistory⟩
    rw [hexec]
    refine Bool.eq_false_iff.mpr fun hrunning => ?_
    rw [hnone k ((hsame k hrunning).symm.trans hk)] at hrunning
    simp at hrunning
  · refine .inr ⟨k,c,if k = s.calledEntry sessionId mailboxId now then calls ++ [s.nextCall] else calls,
      (hsame k hrunning).trans hk,(hexec k).trans hrunning,?_,hhistory⟩
    rw [called_calls]
    split
    · rename_i hke
      rw [← hke,hcs]
      rfl
    · exact hcs

/-- A new call goes to the end of its chain. -/
theorem TraceInv.called (h : TraceInv s) (hheld : Held (s.pool.run (imapKey sessionId mailboxId) now)) :
    TraceInv (s.called sessionId mailboxId now) := by
  refine ⟨hheld,fun k => ?_,called_order sessionId mailboxId now h,called_turn sessionId mailboxId now h⟩
  rw [called_calls,called_chain sessionId mailboxId now h]
  split
  · rename_i hk
    rw [← hk,List.length_append,List.length_append,h.calls]
    rfl
  · rw [List.append_nil]
    exact h.calls k

end Called

/-- Whether a callback runs is read off the first call of the chain. -/
theorem executing_of_chain {e : Nat} {rest : List OpPhase} (hchain : (s.pool.entries e).chain = op :: rest) :
    s.executing e = !op.isPending := by
  simp only [TracedPool.executing,PoolEntry.executing,hchain]
  cases op with
  | _ => rfl

/-- A step without a purge keeps calls in order and closes no client in use. -/
theorem traced_step {a : PoolAction} (h : TraceInv s) (hb : Bounded cfg s.pool) (ha : NoPurge s a) (hstep : tracedStep cfg s a = some t) :
    TraceInv t ∧ Disciplined cfg s.pool t.pool := by
  obtain ⟨pool,hpool,rfl⟩ := Option.map_eq_some_iff.mp hstep
  have hne : ∀ sessionId, a ≠ .purgeSession sessionId := by
    rintro sessionId rfl
    exact ha
  have hdisciplined : Disciplined cfg s.pool pool := disciplined_step h.held hb hne hpool
  have hheld := hdisciplined.held
  cases poolMoved_of_step hpool with
  | run sessionId mailboxId now => exact ⟨h.called sessionId mailboxId now hheld,hdisciplined⟩
  | @reuses e now c rest hchain hclient =>
    have hself := s.pool.modify_self e fun x => { x with lastUsed := now, chain := .running c :: rest }
    rw [TracedPool.after,if_pos (by rw [hself]; rfl)]
    refine ⟨h.begins hheld hchain (executing_of_chain hchain) (fun k => ?_) (by rw [hself])
      fun k hk => by rw [s.pool.modify_ne e _ hk],hdisciplined⟩
    by_cases hk : k = e
    · rw [hk,hself]
    · rw [s.pool.modify_ne e _ hk]
  | @connects e now rest hchain hclient =>
    have hself := s.pool.modify_self e fun x => { x with chain := .connecting :: rest }
    rw [TracedPool.after,if_neg (by rw [hself]; simp [PoolEntry.executing])]
    exact ⟨h.connects hheld hchain (executing_of_chain hchain),hdisciplined⟩
  | @connected e now rest hchain =>
    have hself := connect_self s.pool e now rest
    rw [TracedPool.after,if_pos (by rw [hself]; rfl)]
    refine ⟨h.begins hheld hchain (executing_of_chain hchain) (fun k => ?_) (by rw [hself]) fun k hk => by rw [connect_ne hk],hdisciplined⟩
    by_cases hk : k = e
    · rw [hk,hself]
    · rw [connect_ne hk]
  | rejected hchain => exact ⟨h.rejected hheld hchain (executing_of_chain hchain),hdisciplined⟩
  | settled hchain => exact ⟨h.ends hheld hchain (executing_of_chain hchain),hdisciplined⟩
  | @finished e now settling hsettling =>
    obtain ⟨m,-,hchain,htrim,-,hm⟩ := finish_trims cfg (s.pool.entries e).key h.held hsettling
    subst hm
    refine ⟨h.still hheld fun k => ?_,hdisciplined⟩
    rw [htrim.entries k]
    refine ⟨?_,hchain k⟩
    by_cases hk : k = e
    · rw [hk,s.pool.modify_self]
    · rw [s.pool.modify_ne e _ hk]
  | purged sessionId => exact ha.elim
  | swept now =>
    have htrim : Trimmed s.pool (s.pool.sweepIdle cfg now) := trimmed_sweep cfg now _ s.pool.lists_rows
    refine ⟨h.still hheld fun k => ?_,hdisciplined⟩
    rw [htrim.entries k]
    exact ⟨rfl,rfl⟩
  | lost husable => exact ⟨h.still hheld fun _ => ⟨rfl,rfl⟩,hdisciplined⟩

structure PoolSound (cfg : PoolConfig) (s : TracedPool) : Prop where
  trace : TraceInv s
  bounded : Bounded cfg s.pool

/-- Without purges the callbacks of a session and mailbox run one at a time and in the
order of their calls, a step closes no client whose entry has a call queued or running,
and the pool is within its bound once no call is in flight. -/
theorem pool_discipline (cfg : PoolConfig) {s : TracedPool} (hrun : Run (tracedStep cfg) NoPurge .initial s) :
    (∀ sessionId mailboxId, InTurn (s.history (imapKey sessionId mailboxId))) ∧
    (∀ a t c, NoPurge s a → tracedStep cfg s a = some t → Closes s.pool t.pool c →
      (s.pool.entries (s.pool.clients c).entry).chain = []) ∧
    (s.pool.Quiet → s.pool.pool.rows.length ≤ max 1 cfg.poolMax) := by
  have hinitial : Bounded cfg ImapPool.initial := fun _ => Nat.zero_le _
  have hreached : PoolSound cfg s := by
    refine hrun.invariant (fun s a t h ha hstep => ?_) ⟨traceInv_initial,hinitial⟩
    obtain ⟨hinv,hdisciplined⟩ := traced_step h.trace h.bounded ha hstep
    exact ⟨hinv,hdisciplined.bounded⟩
  obtain ⟨hinv,hbounded⟩ := hreached
  refine ⟨fun sessionId mailboxId => (hinv.turns _).inTurn,fun a t c ha hstep hc => ?_,fun hquiet => hbounded fun e => ?_⟩
  · exact (traced_step hinv hbounded ha hstep).2.closes c hc
  · obtain ⟨hchain,hsettling⟩ := hquiet e
    rw [(hinv.held.inv.entries e).inUse,hchain,hsettling]
    rfl

/-- Two calls on one key, of which the first is rejected by its callback, and calls on
two more keys. -/
def busyActions : List PoolAction := [.run (js "s") (js "m") 0,.run (js "s") (js "m") 1,.start 0 2,.connected 0 3,.settle 0,
  .start 0 4,.run (js "s") (js "n") 5,.start 1 5,.connectFailed 1,.finish 0 6,.sweepIdle 900000,.run (js "t") (js "m") 7,.start 2 7,
  .connected 2 8,.settle 0,.finish 0 9,.finish 1 9,.settle 2,.finish 2 9]

structure PoolView where
  history : List CallbackEvent
  size : Nat
  deriving DecidableEq

def poolView (s : TracedPool) : PoolView := ⟨s.history (imapKey (js "s") (js "m")),s.pool.pool.rows.length⟩

theorem pool_discipline_busy : ∃ s, Run (tracedStep smallPool) NoPurge .initial s ∧
    poolView s = ⟨[.begins 0,.ends 0,.begins 1,.ends 1],2⟩ ∧ InTurn (s.history (imapKey (js "s") (js "m"))) := by
  have htrace : (runActions (tracedStep smallPool) NoPurge .initial busyActions).map poolView =
      some ⟨[.begins 0,.ends 0,.begins 1,.ends 1],2⟩ := by
    decide +kernel
  obtain ⟨s,hs,hview⟩ := Option.map_eq_some_iff.mp htrace
  have hrun := Run.of_actions hs
  exact ⟨s,hrun,hview,(pool_discipline smallPool hrun).1 (js "s") (js "m")⟩

end Turns
end JustMail.Webmail
