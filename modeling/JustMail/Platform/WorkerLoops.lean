import Mathlib.Data.List.Nodup
import Mathlib.Data.List.Perm.Subperm
import JustMail.Foundation.CodeUnits
import JustMail.Foundation.Runs
import JustMail.Foundation.Transactions

/-! The background loops of `worker.ts`. Any number of replicas fire the timers of the same loops; a
tick runs its body under an advisory lock of its loop, which belongs to the session of the pooled
client that the tick has borrowed. -/
namespace JustMail.Platform
open Foundation

/-- `runners`, by their labels. -/
def RUNNERS : List JsString :=
  [js "webhooks",js "queue",js "dnsbl",js "cred-sweep",js "send",js "ldap",js "retention",js "backups",js "dkim-rotate",js "dns-recheck"]

/-- djb2 in 32 bits, masked to a positive number. -/
def lockKey (label : JsString) : Nat :=
  let h : UInt32 := label.foldl (fun h c => (h <<< 5) + h + c.toUInt32) 5381
  let masked := (h &&& 0x7fffffff).toNat
  if masked = 0 then 1 else masked

/-- The loops have different keys. -/
theorem lockKey_inj : ∀ label ∈ RUNNERS, ∀ label' ∈ RUNNERS, lockKey label = lockKey label' → label = label' := by decide

/-- `max` of `lockPool`. -/
def POOL_MAX : Nat := RUNNERS.length + 1

section Model

/-- How far a tick has come; `client` is the client that it has borrowed, and `failed` tells that the
body has thrown. -/
inductive TickPhase where
  | waiting
  | connected (client : Nat)
  | running (client : Nat)
  | unlocking (client : Nat) (failed : Bool)
  | releasing (client : Nat) (failed : Bool)
  | ended (failed : Bool)
  deriving DecidableEq

structure Tick where
  replica : Nat
  label : JsString
  phase : TickPhase
  deriving DecidableEq

def Tick.key (t : Tick) : Nat := lockKey t.label

def TickPhase.client : TickPhase → Option Nat
  | .waiting | .ended _ => none
  | .connected client | .running client | .unlocking client _ | .releasing client _ => some client

/-- The lock is held in these phases. -/
def TickPhase.holds : TickPhase → Bool
  | .running _ | .unlocking _ _ => true
  | _ => false

inductive ClientStatus where
  | idle
  | borrowed (tick : Nat)
  | closed
  deriving DecidableEq

/-- A connection of `lockPool`, a session of the server. Its number is never given again. -/
structure PoolClient where
  replica : Nat
  status : ClientStatus
  deriving DecidableEq

structure WorkerState where
  locks : Locks Nat Nat
  clients : List PoolClient
  ticks : List Tick

def WorkerState.initial : WorkerState := ⟨.free,[],[]⟩

def PoolClient.isOpen (replica : Nat) (c : PoolClient) : Bool := c.replica == replica && c.status != .closed

def WorkerState.pool (s : WorkerState) (replica : Nat) : List Nat :=
  (List.range s.clients.length).filter fun j => s.clients[j]?.any (·.isOpen replica)

/-- A timer fires, the pool gives an idle client or a new one to a tick or closes one that is idle, and
ticks go on: they try the lock, end their body, unlock and release their client. -/
inductive WorkerAction where
  | fire (replica : Nat) (label : JsString)
  | reuse (tick client : Nat)
  | connect (tick : Nat)
  | closeIdle (client : Nat)
  | tryLock (tick : Nat)
  | finish (tick : Nat) (throws : Bool)
  | unlock (tick : Nat)
  | release (tick : Nat)

variable (s : WorkerState)

def WorkerState.setPhase (i : Nat) (t : Tick) (phase : TickPhase) : WorkerState :=
  { s with ticks := s.ticks.set i { t with phase := phase } }

def WorkerState.setStatus (j : Nat) (c : PoolClient) (status : ClientStatus) : WorkerState :=
  { s with clients := s.clients.set j { c with status := status } }

def workerStep : WorkerAction → Option WorkerState
  | .fire replica label => if label ∈ RUNNERS then some { s with ticks := s.ticks ++ [⟨replica,label,.waiting⟩] } else none
  | .reuse i j =>
    match s.ticks[i]?, s.clients[j]? with
    | some ⟨replica,label,.waiting⟩, some ⟨replica',.idle⟩ =>
      if replica' = replica then
        some ((s.setStatus j ⟨replica',.idle⟩ (.borrowed i)).setPhase i ⟨replica,label,.waiting⟩ (.connected j))
      else none
    | _, _ => none
  | .connect i =>
    match s.ticks[i]? with
    | some ⟨replica,label,.waiting⟩ =>
      if (s.pool replica).length < POOL_MAX then
        some (({ s with clients := s.clients ++ [⟨replica,.borrowed i⟩] } : WorkerState).setPhase i ⟨replica,
          label,.waiting⟩ (.connected s.clients.length))
      else none
    | _ => none
  | .closeIdle j =>
    match s.clients[j]? with
    | some ⟨replica,.idle⟩ => some { s.setStatus j ⟨replica,.idle⟩ .closed with locks := s.locks.releaseAll j }
    | _ => none
  | .tryLock i =>
    match s.ticks[i]? with
    | some ⟨replica,label,.connected j⟩ =>
      match s.locks.tryLock j (lockKey label) with
      | some locks => some { s.setPhase i ⟨replica,label,.connected j⟩ (.running j) with locks := locks }
      | none => some (s.setPhase i ⟨replica,label,.connected j⟩ (.releasing j false))
    | _ => none
  | .finish i throws =>
    match s.ticks[i]? with
    | some ⟨replica,label,.running j⟩ => some (s.setPhase i ⟨replica,label,.running j⟩ (.unlocking j throws))
    | _ => none
  | .unlock i =>
    match s.ticks[i]? with
    | some ⟨replica,label,.unlocking j failed⟩ =>
      some { s.setPhase i ⟨replica,label,.unlocking j failed⟩ (.releasing j failed) with locks := s.locks.unlock j (lockKey label) }
    | _ => none
  | .release i =>
    match s.ticks[i]? with
    | some ⟨replica,label,.releasing j failed⟩ =>
      some ((s.setStatus j ⟨replica,.borrowed i⟩ .idle).setPhase i ⟨replica,label,.releasing j failed⟩ (.ended failed))
    | _ => none

end Model

section Exclusion
variable {label : JsString} {replica : Nat}

variable {s t : WorkerState} {i j : Nat} {tick : Tick} {phase : TickPhase} {a : WorkerAction}

/-- Clients and ticks agree on who has borrowed what, and the locks that are held are those of the ticks
between the try and the unlock, each held once. -/
structure WorkerInv (s : WorkerState) : Prop where
  labels : ∀ t ∈ s.ticks, t.label ∈ RUNNERS
  borrowed : ∀ j replica i : Nat, s.clients[j]? = some ⟨replica,.borrowed i⟩ →
    ∃ t, s.ticks[i]? = some t ∧ t.replica = replica ∧ t.phase.client = some j
  owned : ∀ (i : Nat) (t : Tick) (j : Nat), s.ticks[i]? = some t → t.phase.client = some j → s.clients[j]? = some ⟨t.replica,.borrowed i⟩
  held : ∀ k j n, s.locks.holder k = some (j,n) →
    n = 0 ∧ ∃ (i : Nat) (t : Tick), s.ticks[i]? = some t ∧ t.key = k ∧ t.phase.holds = true ∧ t.phase.client = some j
  holds : ∀ (i : Nat) (t : Tick) (j : Nat), s.ticks[i]? = some t → t.phase.holds = true → t.phase.client = some j →
    s.locks.holder t.key = some (j,0)

/-- A session that no tick holds a lock with holds none. -/
theorem WorkerInv.holder_ne (h : WorkerInv s)
    (hfree : ∀ (i : Nat) (t : Tick), s.ticks[i]? = some t → t.phase.client = some j → t.phase.holds = false)
    (k n : Nat) :
    s.locks.holder k ≠ some (j,n) := by
  intro hheld
  obtain ⟨-,i,t,ht,-,hholds,hclient⟩ := h.held k j n hheld
  rw [hfree i t ht hclient] at hholds
  simp at hholds

theorem WorkerInv.unique (h : WorkerInv s) {i' : Nat} {tick' : Tick} (ht : s.ticks[i]? = some tick) (ht' : s.ticks[i']? = some tick')
    (hclient : tick.phase.client = some j) (hclient' : tick'.phase.client = some j) : i = i' := by
  have howned := h.owned i tick j ht hclient
  rw [h.owned i' tick' j ht' hclient'] at howned
  simp only [Option.some.injEq,PoolClient.mk.injEq,ClientStatus.borrowed.injEq] at howned
  exact howned.2.symm

theorem workerInv_initial : WorkerInv .initial := by
  constructor <;> simp [WorkerState.initial,Locks.free]

theorem labels_setPhase (h : WorkerInv s) (ht : s.ticks[i]? = some tick) (phase : TickPhase) :
    ∀ t ∈ s.ticks.set i { tick with phase := phase }, t.label ∈ RUNNERS := by
  intro t hmem
  rcases List.mem_or_eq_of_mem_set hmem with hmem | rfl
  · exact h.labels t hmem
  · exact h.labels tick (List.mem_of_getElem? ht)

theorem workerInv_fire (h : WorkerInv s) (hlabel : label ∈ RUNNERS) :
    WorkerInv { s with ticks := s.ticks ++ [⟨replica,label,.waiting⟩] } := by
  have hold : ∀ {i : Nat} {t : Tick}, s.ticks[i]? = some t → (s.ticks ++ [⟨replica,label,.waiting⟩])[i]? = some t := by
    intro i t ht
    rw [List.getElem?_append_left (List.getElem?_eq_some_iff.mp ht).1,ht]
  have hnew : ∀ {i : Nat} {t : Tick} {j : Nat}, (s.ticks ++ [⟨replica,label,.waiting⟩])[i]? = some t →
    t.phase.client = some j → s.ticks[i]? = some t := by
    intro i t j ht hclient
    by_cases hi : i < s.ticks.length
    · rwa [List.getElem?_append_left hi] at ht
    · rw [List.getElem?_append_right (Nat.le_of_not_lt hi)] at ht
      obtain rfl := List.mem_singleton.mp (List.mem_of_getElem? ht)
      simp [TickPhase.client] at hclient
  refine ⟨?_,?_,?_,?_,?_⟩
  · intro t hmem
    rcases List.mem_append.mp hmem with hmem | hmem
    · exact h.labels t hmem
    · rw [List.mem_singleton.mp hmem]
      exact hlabel
  · intro j replica' i hclient
    obtain ⟨t,ht,hrest⟩ := h.borrowed j replica' i hclient
    exact ⟨t,hold ht,hrest⟩
  · exact fun i t j ht hclient => h.owned i t j (hnew ht hclient) hclient
  · intro k j n hheld
    obtain ⟨hn,i,t,ht,hrest⟩ := h.held k j n hheld
    exact ⟨hn,i,t,hold ht,hrest⟩
  · exact fun i t j ht hholds hclient => h.holds i t j (hnew ht hclient) hholds hclient

section Proceed
variable {locks : Locks Nat Nat} (h : WorkerInv s) (ht : s.ticks[i]? = some tick) (hclient : tick.phase.client = some j)
  (hsame : phase.client = some j)
  (hothers : ∀ k, k ≠ tick.key → locks.holder k = s.locks.holder k)
  (hown : locks.holder tick.key = if phase.holds then some (j,0) else if tick.phase.holds then none else s.locks.holder tick.key)
  (htaken : phase.holds = true → tick.phase.holds = true ∨ s.locks.holder tick.key = none)
include h ht hclient

/-- Where another tick holds a lock, a tick of the same loop neither holds it nor gets it. -/
theorem WorkerInv.excluded (htaken : phase.holds = true → tick.phase.holds = true ∨ s.locks.holder tick.key = none)
    {i' j' : Nat} {tick' : Tick}
    (hne : i' ≠ i) (ht' : s.ticks[i']? = some tick') (hholds : tick'.phase.holds = true) (hclient' : tick'.phase.client = some j')
    (hkey : tick'.key = tick.key) : tick.phase.holds = false ∧ phase.holds = false := by
  have hheld := h.holds i' tick' j' ht' hholds hclient'
  have hnot : tick.phase.holds = false := by
    refine Bool.eq_false_iff.mpr fun htick => hne ?_
    rw [hkey,h.holds i tick j ht htick hclient,Option.some.injEq,Prod.mk.injEq] at hheld
    obtain ⟨rfl,-⟩ := hheld
    exact h.unique ht' ht hclient' hclient
  refine ⟨hnot,Bool.eq_false_iff.mpr fun hphase => ?_⟩
  rcases htaken hphase with htick | hnone
  · simp [hnot] at htick
  · simp [hkey,hnone] at hheld

include hsame

theorem borrowed_proceed {j' replica i' : Nat} (hborrowed : s.clients[j']? = some ⟨replica,.borrowed i'⟩) :
    ∃ t, (s.setPhase i tick phase).ticks[i']? = some t ∧ t.replica = replica ∧ t.phase.client = some j' := by
  have hset := getElem?_set_of_some ht { tick with phase := phase } i'
  obtain ⟨t,ht',hreplica,hjt⟩ := h.borrowed j' replica i' hborrowed
  by_cases hi : i' = i
  · subst hi
    obtain rfl := Option.some.inj (ht.symm.trans ht')
    obtain rfl := Option.some.inj (hclient.symm.trans hjt)
    exact ⟨_,hset.trans (if_pos rfl),hreplica,hsame⟩
  · exact ⟨t,hset.trans ((if_neg hi).trans ht'),hreplica,hjt⟩

theorem owned_proceed {i' j' : Nat} {t : Tick} (ht' : (s.setPhase i tick phase).ticks[i']? = some t) (hjt : t.phase.client = some j') :
    s.clients[j']? = some ⟨t.replica,.borrowed i'⟩ := by
  have hlookup := (getElem?_set_of_some ht { tick with phase := phase } i').symm.trans ht'
  split at hlookup
  · rename_i hi
    subst hi
    cases hlookup
    obtain rfl := Option.some.inj (hsame.symm.trans hjt)
    exact h.owned i' tick j ht hclient
  · exact h.owned i' t j' hlookup hjt

omit hclient in
include hothers hown in
theorem held_proceed {k j' n : Nat} (hheld : locks.holder k = some (j',n)) : n = 0 ∧
    ∃ (i' : Nat) (t : Tick), (s.setPhase i tick phase).ticks[i']? = some t ∧ t.key = k ∧
    t.phase.holds = true ∧ t.phase.client = some j' := by
  have hset := getElem?_set_of_some ht { tick with phase := phase }
  -- The lock of another tick is held as before.
  have hkept : s.locks.holder k = some (j',n) → (k = tick.key → tick.phase.holds = false) → n = 0 ∧
      ∃ (i' : Nat) (t : Tick), (s.setPhase i tick phase).ticks[i']? = some t ∧ t.key = k ∧
        t.phase.holds = true ∧ t.phase.client = some j' := by
    intro hold hnot
    obtain ⟨hn,i',t,ht',hkey,hholds,hjt⟩ := h.held k j' n hold
    have hother : t ≠ tick := by
      rintro rfl
      simp [hnot hkey.symm] at hholds
    exact ⟨hn,i',t,getElem?_set_other ht ht' hother _,hkey,hholds,hjt⟩
  by_cases hk : k = tick.key
  · subst hk
    have hholder := hown.symm.trans hheld
    split at hholder
    · rename_i hphase
      cases hholder
      exact ⟨rfl,i,_,(hset i).trans (if_pos rfl),rfl,hphase,hsame⟩
    · split at hholder
      · simp at hholder
      · rename_i hnot
        exact hkept hholder fun _ => Bool.eq_false_iff.mpr hnot
  · exact hkept ((hothers k hk).symm.trans hheld) fun heq => absurd heq hk

include hothers hown htaken in
theorem holds_proceed {i' j' : Nat} {t : Tick} (ht' : (s.setPhase i tick phase).ticks[i']? = some t) (hholds : t.phase.holds = true)
    (hjt : t.phase.client = some j') : locks.holder t.key = some (j',0) := by
  have hlookup := (getElem?_set_of_some ht { tick with phase := phase } i').symm.trans ht'
  split at hlookup
  · cases hlookup
    obtain rfl := Option.some.inj (hsame.symm.trans hjt)
    have hphase : phase.holds = true := hholds
    exact hown.trans (if_pos hphase)
  · rename_i hi
    have hheld := h.holds i' t j' hlookup hholds hjt
    by_cases hkey : t.key = tick.key
    · obtain ⟨htick,hphase⟩ := h.excluded ht hclient htaken hi hlookup hholds hjt hkey
      have hkept : locks.holder tick.key = s.locks.holder tick.key := by
        rw [hown,htick,hphase]
        rfl
      rw [hkey] at hheld ⊢
      exact hkept.trans hheld
    · exact (hothers _ hkey).trans hheld

include hothers hown htaken in
/-- A tick that has borrowed a client goes on with it, and the lock of its loop with the tick. -/
theorem workerInv_proceed : WorkerInv { s.setPhase i tick phase with locks := locks } where
  labels := labels_setPhase h ht phase
  borrowed _ _ _ hborrowed := borrowed_proceed h ht hclient hsame hborrowed
  owned _ _ _ ht' hjt := owned_proceed h ht hclient hsame ht' hjt
  held _ _ _ hheld := held_proceed h ht hsame hothers hown hheld
  holds _ _ _ ht' hholds hjt := holds_proceed h ht hclient hsame hothers hown htaken ht' hholds hjt

end Proceed

section Pool
variable {clients : List PoolClient} (h : WorkerInv s) (ht : s.ticks[i]? = some tick)
include h ht

theorem held_setPhase (hidle : tick.phase.holds = false) {k j' n : Nat} (hheld : s.locks.holder k = some (j',n)) : n = 0 ∧
    ∃ (i' : Nat) (t : Tick), (s.setPhase i tick phase).ticks[i']? = some t ∧ t.key = k ∧
    t.phase.holds = true ∧ t.phase.client = some j' := by
  obtain ⟨hn,i',t,ht',hkey,hholds,hjt⟩ := h.held k j' n hheld
  have hother : t ≠ tick := by
    rintro rfl
    simp [hidle] at hholds
  exact ⟨hn,i',t,getElem?_set_other ht ht' hother _,hkey,hholds,hjt⟩

theorem holds_setPhase (hphase : phase.holds = false) {i' j' : Nat} {t : Tick} (ht' : (s.setPhase i tick phase).ticks[i']? = some t)
    (hholds : t.phase.holds = true) (hjt : t.phase.client = some j') : s.locks.holder t.key = some (j',0) := by
  have hlookup := (getElem?_set_of_some ht { tick with phase := phase } i').symm.trans ht'
  split at hlookup
  · cases hlookup
    simp [hphase] at hholds
  · exact h.holds i' t j' hlookup hholds hjt

/-- A client that nobody has is given to a tick that has none. -/
theorem workerInv_lend (hnone : tick.phase.client = none)
    (hclients : ∀ j' : Nat, clients[j']? = if j' = j then some ⟨tick.replica,.borrowed i⟩ else s.clients[j']?)
    (hunused : ∀ replica i', s.clients[j]? ≠ some ⟨replica,.borrowed i'⟩) :
    WorkerInv { s with clients := clients, ticks := s.ticks.set i { tick with phase := .connected j } } := by
  have hset := getElem?_set_of_some ht { tick with phase := .connected j }
  have hidle : tick.phase.holds = false := by
    cases hphase : tick.phase <;> simp_all [TickPhase.client,TickPhase.holds]
  refine ⟨labels_setPhase h ht _,?_,?_,?_,?_⟩
  · intro j' replica i' hborrowed
    rw [hclients] at hborrowed
    split at hborrowed
    · rename_i hj
      obtain ⟨rfl,rfl⟩ : tick.replica = replica ∧ i = i' := by simpa using hborrowed
      exact ⟨_,(hset i).trans (if_pos rfl),rfl,congrArg some hj.symm⟩
    · obtain ⟨t,ht',hreplica,hjt⟩ := h.borrowed j' replica i' hborrowed
      have hother : t ≠ tick := by
        rintro rfl
        simp [hnone] at hjt
      exact ⟨t,getElem?_set_other ht ht' hother _,hreplica,hjt⟩
  · intro i' t j' ht' hjt
    have hlookup := (hset i').symm.trans ht'
    rw [hclients]
    split at hlookup
    · rename_i hi
      subst hi
      cases hlookup
      cases hjt
      exact if_pos rfl
    · have howned := h.owned i' t j' hlookup hjt
      have hj : j' ≠ j := by
        rintro rfl
        exact hunused _ _ howned
      exact (if_neg hj).trans howned
  · exact fun k j' n hheld => held_setPhase h ht hidle hheld
  · exact fun i' t j' ht' hholds hjt => holds_setPhase h ht rfl ht' hholds hjt

theorem workerInv_giveBack (hclient : tick.phase.client = some j) (hholds : tick.phase.holds = false) (failed : Bool) :
    WorkerInv ((s.setStatus j ⟨tick.replica,.borrowed i⟩ .idle).setPhase i tick (.ended failed)) := by
  have hset := getElem?_set_of_some ht { tick with phase := .ended failed }
  have hclients := getElem?_set_of_some (h.owned i tick j ht hclient) ⟨tick.replica,.idle⟩
  refine ⟨labels_setPhase h ht _,?_,?_,?_,?_⟩
  · intro j' replica i' hborrowed
    have hlookup := (hclients j').symm.trans hborrowed
    split at hlookup
    · simp at hlookup
    · rename_i hj
      obtain ⟨t,ht',hreplica,hjt⟩ := h.borrowed j' replica i' hlookup
      have hother : t ≠ tick := by
        rintro rfl
        exact hj (Option.some.inj (hjt.symm.trans hclient))
      exact ⟨t,getElem?_set_other ht ht' hother _,hreplica,hjt⟩
  · intro i' t j' ht' hjt
    have hlookup := (hset i').symm.trans ht'
    split at hlookup
    · cases hlookup
      simp [TickPhase.client] at hjt
    · rename_i hi
      have hj : j' ≠ j := by
        rintro rfl
        exact hi (h.unique hlookup ht hjt hclient)
      exact (hclients j').trans ((if_neg hj).trans (h.owned i' t j' hlookup hjt))
  · exact fun k j' n hheld => held_setPhase h ht hholds hheld
  · exact fun i' t j' ht' hholds' hjt => holds_setPhase h ht rfl ht' hholds' hjt

omit ht in
theorem workerInv_closeIdle {replica : Nat} (hidle : s.clients[j]? = some ⟨replica,.idle⟩) :
    WorkerInv { s.setStatus j ⟨replica,.idle⟩ .closed with locks := s.locks.releaseAll j } := by
  have hclients := getElem?_set_of_some hidle ⟨replica,.closed⟩
  have hunborrowed : ∀ (i : Nat) (t : Tick), s.ticks[i]? = some t → t.phase.client ≠ some j := by
    intro i t ht hjt
    have howned := h.owned i t j ht hjt
    simp [hidle] at howned
  have hlocks : ∀ k, (s.locks.releaseAll j).holder k = s.locks.holder k := fun k =>
    Locks.holder_releaseAll (h.holder_ne (fun i t ht hjt => absurd hjt (hunborrowed i t ht)) k)
  refine ⟨h.labels,?_,?_,?_,?_⟩
  · intro j' replica' i' hborrowed
    have hlookup := (hclients j').symm.trans hborrowed
    split at hlookup
    · simp at hlookup
    · exact h.borrowed j' replica' i' hlookup
  · intro i' t j' ht' hjt
    have hj : j' ≠ j := by
      rintro rfl
      exact hunborrowed i' t ht' hjt
    exact (hclients j').trans ((if_neg hj).trans (h.owned i' t j' ht' hjt))
  · exact fun k j' n hheld => h.held k j' n ((hlocks k).symm.trans hheld)
  · exact fun i' t j' ht' hholds hjt => (hlocks t.key).trans (h.holds i' t j' ht' hholds hjt)

end Pool

/-- The session of a tick that has not tried the lock yet holds none. -/
theorem WorkerInv.connected_free (h : WorkerInv s) (ht : s.ticks[i]? = some tick) (hphase : tick.phase = .connected j) (k n : Nat) :
    s.locks.holder k ≠ some (j,n) := by
  refine h.holder_ne (fun i' t ht' hjt => ?_) k n
  obtain rfl := h.unique ht' ht hjt (by rw [hphase]; rfl)
  obtain rfl := Option.some.inj (ht.symm.trans ht')
  rw [hphase]
  rfl

theorem workerInv_tryLock (h : WorkerInv s) (ht : s.ticks[i]? = some ⟨replica,label,.connected j⟩)
    (hstep : workerStep s (.tryLock i) = some t) : WorkerInv t := by
  rw [workerStep,ht] at hstep
  dsimp only at hstep
  cases hlock : s.locks.tryLock j (lockKey label) with
  | none =>
    rw [hlock] at hstep
    cases hstep
    exact workerInv_proceed h ht rfl rfl (fun _ _ => rfl) rfl (fun hholds => absurd hholds Bool.false_ne_true)
  | some locks =>
    rw [hlock] at hstep
    cases hstep
    obtain ⟨hnone,hholder⟩ := Locks.holder_tryLock (h.connected_free ht rfl _) hlock
    exact workerInv_proceed h ht rfl rfl (fun k hk => (hholder k).trans (if_neg hk)) ((hholder _).trans (if_pos rfl)) fun _ => .inr hnone

theorem workerInv_unlock (h : WorkerInv s) {failed : Bool}
    (ht : s.ticks[i]? = some ⟨replica,label,.unlocking j failed⟩) :
    WorkerInv { s.setPhase i ⟨replica,label,
    .unlocking j failed⟩ (.releasing j failed) with locks := s.locks.unlock j (lockKey label) } := by
  have hholder := Locks.holder_unlock (h.holds i _ j ht rfl rfl)
  exact workerInv_proceed h ht rfl rfl (fun k hk => (hholder k).trans (if_neg hk)) ((hholder _).trans (if_pos rfl))
    (fun hholds => absurd hholds Bool.false_ne_true)

theorem workerInv_step (h : WorkerInv s) (hstep : workerStep s a = some t) : WorkerInv t := by
  cases a with
  | fire replica label =>
    rw [workerStep] at hstep
    split at hstep
    · rename_i hlabel
      cases hstep
      exact workerInv_fire h hlabel
    · simp at hstep
  | reuse i j =>
    rw [workerStep] at hstep
    split at hstep
    · rename_i replica label replica' ht hc
      split at hstep
      · rename_i heq
        subst heq
        cases hstep
        have hlend := workerInv_lend h ht rfl (getElem?_set_of_some hc ⟨replica',.borrowed i⟩) (by simp [hc])
        exact hlend
      · simp at hstep
    · simp at hstep
  | connect i =>
    rw [workerStep] at hstep
    split at hstep
    · rename_i replica label ht
      split at hstep
      · cases hstep
        have hlend := workerInv_lend h ht rfl (getElem?_append_new s.clients ⟨replica,.borrowed i⟩) (by simp)
        exact hlend
      · simp at hstep
    · simp at hstep
  | closeIdle j =>
    rw [workerStep] at hstep
    split at hstep
    · rename_i replica hidle
      cases hstep
      exact workerInv_closeIdle h hidle
    · simp at hstep
  | tryLock i =>
    have hstep' := hstep
    rw [workerStep] at hstep'
    split at hstep'
    · rename_i replica label j ht
      exact workerInv_tryLock h ht hstep
    · simp at hstep'
  | finish i throws =>
    rw [workerStep] at hstep
    split at hstep
    · rename_i replica label j ht
      cases hstep
      exact workerInv_proceed h ht rfl rfl (fun _ _ => rfl) (h.holds i _ j ht rfl rfl) fun _ => .inl rfl
    · simp at hstep
  | unlock i =>
    rw [workerStep] at hstep
    split at hstep
    · rename_i replica label j failed ht
      cases hstep
      exact workerInv_unlock h ht
    · simp at hstep
  | release i =>
    rw [workerStep] at hstep
    split at hstep
    · rename_i replica label j failed ht
      cases hstep
      exact workerInv_giveBack h ht rfl rfl failed
    · simp at hstep

end Exclusion

section Results
variable {s t : WorkerState} {i j : Nat}

/-- No two bodies of a loop run. A try succeeds wherever no tick of the same loop holds the lock, and the
bodies never take all clients of a pool: in a full one, a client is idle, or with a tick that holds no
lock. A loop with no tick in flight leaves its lock free. -/
structure LoopsExclude (s : WorkerState) : Prop where
  exclusive : ∀ (i i' : Nat) (t t' : Tick) (j j' : Nat), s.ticks[i]? = some t → s.ticks[i']? = some t' → t.label = t'.label →
    t.phase = .running j → t'.phase = .running j' → i = i'
  independent : ∀ (i : Nat) (t : Tick) (j : Nat), s.ticks[i]? = some t → t.phase = .connected j →
    (∀ (i' : Nat) (t' : Tick), s.ticks[i']? = some t' → t'.label = t.label → t'.phase.holds = false) →
    (s.locks.tryLock j (lockKey t.label)).isSome = true
  spare : ∀ replica, POOL_MAX ≤ (s.pool replica).length → (∃ j : Nat, s.clients[j]? = some ⟨replica,.idle⟩) ∨
    ∃ (i : Nat) (t : Tick), s.ticks[i]? = some t ∧ t.replica = replica ∧ t.phase.client.isSome = true ∧ t.phase.holds = false
  free : ∀ label ∈ RUNNERS, (∀ t ∈ s.ticks, t.label = label → ∃ failed, t.phase = .ended failed) → s.locks.holder (lockKey label) = none

theorem WorkerInv.eq_of_label (h : WorkerInv s) {i' j' : Nat} {tick tick' : Tick} (ht : s.ticks[i]? = some tick)
    (ht' : s.ticks[i']? = some tick')
    (hlabel : tick.label = tick'.label) (hholds : tick.phase.holds = true) (hholds' : tick'.phase.holds = true)
    (hclient : tick.phase.client = some j) (hclient' : tick'.phase.client = some j') : i = i' ∧ j = j' := by
  have hheld := h.holds i tick j ht hholds hclient
  have hkey : tick.key = tick'.key := congrArg lockKey hlabel
  rw [hkey,h.holds i' tick' j' ht' hholds' hclient',Option.some.injEq,Prod.mk.injEq] at hheld
  obtain ⟨rfl,-⟩ := hheld
  exact ⟨h.unique ht ht' hclient hclient',rfl⟩

/-- The ticks that hold a lock have different loops, of which there are fewer than clients in a full pool. -/
theorem WorkerInv.spare (h : WorkerInv s) {replica : Nat} (hfull : POOL_MAX ≤ (s.pool replica).length) :
    (∃ j : Nat, s.clients[j]? = some ⟨replica,.idle⟩) ∨
    ∃ (i : Nat) (t : Tick), s.ticks[i]? = some t ∧ t.replica = replica ∧ t.phase.client.isSome = true ∧ t.phase.holds = false := by
  by_contra hnone
  rw [not_or] at hnone
  obtain ⟨hidle,hall⟩ := hnone
  have htick : ∀ j ∈ s.pool replica, ∃ (i : Nat) (t : Tick), s.ticks[i]? = some t ∧ t.phase.client = some j ∧ t.phase.holds = true := by
    intro j hj
    obtain ⟨⟨replica',status⟩,hc,hopen⟩ := (Option.any_eq_true _ _).mp (List.mem_filter.mp hj).2
    obtain ⟨hreplica,hstatus⟩ : replica' = replica ∧ status ≠ .closed := by simpa [PoolClient.isOpen] using hopen
    subst hreplica
    cases status with
    | idle => exact absurd ⟨j,hc⟩ hidle
    | closed => exact absurd rfl hstatus
    | borrowed i =>
      obtain ⟨t,ht,hreplica,hclient⟩ := h.borrowed j replica' i hc
      refine ⟨i,t,ht,hclient,Bool.not_eq_false _ ▸ fun hholds => hall ⟨i,t,ht,hreplica,by rw [hclient]; rfl,hholds⟩⟩
  choose i t ht hclient hholds using htick
  have hnodup : ((s.pool replica).attach.map fun j => (t j.1 j.2).label).Nodup := by
    refine List.Nodup.map_on (fun j _ j' _ hlabel => ?_) (List.nodup_attach.mpr (List.nodup_range.filter _))
    exact Subtype.ext (h.eq_of_label (ht j.1 j.2) (ht j'.1 j'.2) hlabel (hholds j.1 j.2)
      (hholds j'.1 j'.2) (hclient j.1 j.2) (hclient j'.1 j'.2)).2
  have hsubset : ((s.pool replica).attach.map fun j => (t j.1 j.2).label) ⊆ RUNNERS := by
    intro label hlabel
    obtain ⟨j,-,rfl⟩ := List.mem_map.mp hlabel
    exact h.labels _ (List.mem_of_getElem? (ht j.1 j.2))
  have hle := (List.subperm_of_subset hnodup hsubset).length_le
  rw [List.length_map,List.length_attach] at hle
  rw [POOL_MAX] at hfull
  omega

theorem loopsExclude_of_inv (h : WorkerInv s) : LoopsExclude s where
  exclusive i i' tick tick' j j' ht ht' hlabel hphase hphase' := by
    have hholds : tick.phase.holds = true ∧ tick.phase.client = some j := by rw [hphase]; exact ⟨rfl,rfl⟩
    have hholds' : tick'.phase.holds = true ∧ tick'.phase.client = some j' := by rw [hphase']; exact ⟨rfl,rfl⟩
    exact (h.eq_of_label ht ht' hlabel hholds.1 hholds'.1 hholds.2 hholds'.2).1
  independent i tick j ht hphase hown := by
    refine (Locks.tryLock_isSome (h.connected_free ht hphase _)).mpr ?_
    cases hheld : s.locks.holder (lockKey tick.label) with
    | none => rfl
    | some held =>
      obtain ⟨-,i',tick',ht',hkey,hholds,-⟩ := h.held _ held.1 held.2 hheld
      have hlabel := lockKey_inj _ (h.labels tick' (List.mem_of_getElem? ht')) _ (h.labels tick (List.mem_of_getElem? ht)) hkey
      simp [hown i' tick' ht' hlabel] at hholds
  spare _ := h.spare
  free label hlabel hended := by
    cases hheld : s.locks.holder (lockKey label) with
    | none => rfl
    | some held =>
      obtain ⟨-,i,tick,ht,hkey,hholds,-⟩ := h.held _ held.1 held.2 hheld
      have hmem := List.mem_of_getElem? ht
      obtain ⟨failed,hphase⟩ := hended tick hmem (lockKey_inj _ (h.labels tick hmem) _ hlabel hkey)
      simp [hphase,TickPhase.holds] at hholds

/-- In every run of any number of replicas. -/
theorem loops_exclude (hrun : Run workerStep (fun _ _ => True) .initial s) : LoopsExclude s :=
  loopsExclude_of_inv (hrun.invariant (fun _ _ _ h _ hstep => workerInv_step h hstep) workerInv_initial)

/-- Two replicas tick the loop `send` at the same time and one of them `ldap`: the second tick of `send`
is turned away, the other two run. -/
theorem one_send_body : ∃ s, Run workerStep (fun _ _ => True) .initial s ∧
    s.ticks.map (·.phase) = [.running 0,.releasing 1 false,.running 2] ∧ LoopsExclude s := by
  have hactions : (runActions workerStep (fun _ _ => True) .initial
      [.fire 0 (js "send"),.fire 1 (js "send"),.fire 0 (js "ldap"),.connect 0,.connect 1,.connect 2,.tryLock 0,.tryLock 1,.tryLock 2]).map
        (fun s => s.ticks.map (·.phase)) = some [.running 0,.releasing 1 false,.running 2] := by decide
  obtain ⟨s,hs,hphases⟩ := Option.map_eq_some_iff.mp hactions
  have hrun := Run.of_actions hs
  exact ⟨s,hrun,hphases,loops_exclude hrun⟩

end Results
end JustMail.Platform
