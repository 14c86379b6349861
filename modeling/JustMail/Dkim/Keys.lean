import JustMail.Dkim.DnsReconcile
import JustMail.Foundation.KeyedTable
import JustMail.Foundation.Tasks

/-! The operations of `DkimService` on signing keys, cut into their queries,
transactions and file accesses. -/
namespace JustMail.Dkim
open Foundation

inductive KeyStatus where
  | pending | published | active | retired
  deriving DecidableEq

/-- A row of `dkim_keys` joined with its domain. Domain names are unique, so that the
name stands for `domain_id` too. -/
structure DkimRow where
  id : Nat
  domain : JsString
  selector : JsString
  privateKey : Nat
  status : KeyStatus
  createdAt : Nat
  activatedAt : Option Nat
  deriving DecidableEq

/-- A key is named by domain and selector: in its file name and in `selectors.map`. -/
abbrev KeyName := JsString × JsString

def DkimRow.name (k : DkimRow) : KeyName := (k.domain,k.selector)

/-- `dkim_keys`, with `UNIQUE (domain_id, selector)`. -/
structure KeyTable where
  keys : Table DkimRow.id
  names : (keys.rows.map DkimRow.name).Nodup

namespace KeyTable

/-- An `UPDATE` of the status, with the new `activated_at`. -/
def setStatus (t : KeyTable) (p : DkimRow → Bool) (status : KeyStatus) (activatedAt : Option Nat → Option Nat) : KeyTable where
  keys := t.keys.updateWhere p (fun k => { k with status, activatedAt := activatedAt k.activatedAt }) (fun _ => rfl)
  names := by
    have hnames : (t.keys.rows.map fun k => if p k then { k with status, activatedAt := activatedAt k.activatedAt } else k).map
        DkimRow.name = t.keys.rows.map DkimRow.name := by
      rw [List.map_map]
      refine List.map_congr_left fun k _ => ?_
      rw [Function.comp_apply]
      split <;> rfl
    exact hnames ▸ t.names

/-- `INSERT INTO dkim_keys`; a row of the same id or name makes it fail. -/
def insertKey (t : KeyTable) (k : DkimRow) : Option KeyTable :=
  if h : t.keys.lookup k.id = none ∧ k.name ∉ t.keys.rows.map DkimRow.name then
    some ⟨t.keys.insert k h.1,by
      rw [Table.insert,List.map_append,List.map_singleton]
      exact List.nodup_append.mpr ⟨t.names,List.nodup_singleton _,fun n hn n' hn' heq =>
        h.2 (List.mem_singleton.mp hn' ▸ heq ▸ hn)⟩⟩
  else none

def status (t : KeyTable) (id : Nat) : Option KeyStatus := (t.keys.lookup id).map (·.status)

/-- The active key of the domain is retired, unless it is this one. -/
def retireOthers (t : KeyTable) (domain : JsString) (id : Nat) : KeyTable :=
  t.setStatus (fun k => k.domain = domain ∧ k.id ≠ id ∧ k.status = .active) .retired fun x => x

def retireKey (t : KeyTable) (id : Nat) : KeyTable := t.setStatus (fun k => k.id = id) .retired fun x => x

def activateKey (t : KeyTable) (id now : Nat) : KeyTable := t.setStatus (fun k => k.id = id) .active fun _ => some now

/-- The rows of `selectors.map`: `k.status = 'active'`. Their order is left open. -/
def activeNames (t : KeyTable) : List KeyName := (t.keys.rows.filter (·.status = .active)).map DkimRow.name

end KeyTable

section Operations

/-- What an instruction meets: the time, the selector of the month, the id and the
private key of a new row, what the DNS lookup finds, and whether it fails. -/
structure KeyEnv where
  now : Nat
  nextSelector : JsString
  newId : Nat
  newKey : Nat
  resolves : Bool
  fails : Bool

structure RotationConfig where
  enabled : Bool
  rotationAge : Nat
  overlap : Nat

/-- The atomic steps. `caught` marks those inside a loop that logs an exception and
goes on with its next item. -/
inductive KeyInstr where
  | insertKey (name : KeyName) (privateKey : Nat)
  | writeKeyFile (caught : Bool) (name : KeyName) (privateKey : Nat)
  | deleteKeyFile (name : KeyName)
  | selectSync
  | selectMap (caught : Bool)
  | writeMap (caught : Bool) (snapshot : Nat) (lines : List KeyName)
  | activateTx (domain : JsString) (id : Nat)
  | retireSelect (domain : JsString) (id : Nat)
  | retireUpdate (id : Nat)
  | selectDue
  | freshSelector (domain : JsString)
  | startInsert (name : KeyName) (privateKey : Nat)
  | publishTxt (name : KeyName) (privateKey : Nat)
  | startWrite (name : KeyName) (privateKey : Nat)
  | selectReady
  | txtResolves (domain : JsString) (id : Nat)
  | promoteTx (domain : JsString) (id : Nat)
  deriving DecidableEq

/-- Where an exception leads. A failed `unlink` is ignored, a failed DNS lookup counts
as no answer. -/
def KeyInstr.failure : KeyInstr → Outcome KeyInstr
  | .writeKeyFile true _ _ | .selectMap true | .writeMap true _ _ | .deleteKeyFile _ | .freshSelector _ |
    .startInsert _ _ | .publishTxt _ _ | .startWrite _ _ | .txtResolves _ _ | .promoteTx _ _ => .next []
  | _ => .throw

/-- The table and the key directory. `reads` numbers the snapshots taken for
`selectors.map`, `written` is the newest of those written. -/
structure KeyState where
  table : KeyTable
  files : KeyName → Option Nat
  selectorsMap : List KeyName
  reads : Nat
  written : Nat

/-- `base`, else the first of `base-2`, `base-3`, .. that is free. -/
def chooseSelector (base : JsString) (taken : List JsString) : JsString :=
  if !taken.contains base then base
  else (((List.range' 2 (taken.length + 1)).map fun i => base ++ js "-" ++ decimal i).find? fun candidate =>
    !taken.contains candidate).getD base

/-- The search is long enough: more candidates are tried than can be taken. -/
theorem chooseSelector_free (base : JsString) (taken : List JsString) : chooseSelector base taken ∉ taken := by
  rw [chooseSelector]
  split
  case isTrue hbase => simpa using hbase
  case isFalse =>
    cases hfind : ((List.range' 2 (taken.length + 1)).map fun i => base ++ js "-" ++ decimal i).find? fun candidate =>
        !taken.contains candidate with
    | some candidate => simpa using List.find?_some hfind
    | none =>
      exfalso
      have hdistinct : ((List.range' 2 (taken.length + 1)).map fun i => base ++ js "-" ++ decimal i).Nodup := by
        apply List.Nodup.map _ List.nodup_range'
        intro i j hij
        exact decimal_injective (List.append_cancel_left hij)
      have hlisted : ((List.range' 2 (taken.length + 1)).map fun i => base ++ js "-" ++ decimal i) ⊆ taken := by
        intro candidate hcandidate
        simpa using List.find?_eq_none.mp hfind candidate hcandidate
      have hle := List.Nodup.length_le_of_subset hdistinct hlisted
      rw [List.length_map,List.length_range'] at hle
      omega

def setFile (files : KeyName → Option Nat) (name : KeyName) (content : Option Nat) : KeyName → Option Nat :=
  fun n => if n = name then content else files n

variable (cfg : RotationConfig)

/-- Domains whose active key is due and has no successor. -/
def dueDomains (t : KeyTable) (now : Nat) : List JsString :=
  (t.keys.rows.filter fun k => k.status = .active ∧ k.activatedAt.any (fun at_ => at_ + cfg.rotationAge < now) ∧
    ∀ s ∈ t.keys.rows, s.domain = k.domain → s.status ≠ .pending ∧ s.status ≠ .published).map (·.domain)

/-- Published keys that have been there for the overlap. -/
def readyKeys (t : KeyTable) (now : Nat) : List DkimRow :=
  t.keys.rows.filter fun k => k.status = .published ∧ k.createdAt + cfg.overlap < now

/-- A key is made active in one transaction, the active key of its domain retired. -/
def makeActive (s : KeyState) (domain : JsString) (id now : Nat) : KeyState :=
  { s with table := (s.table.retireOthers domain id).activateKey id now }

def insertRow (s : KeyState) (name : KeyName) (privateKey : Nat) (status : KeyStatus) (env : KeyEnv) : Option KeyState :=
  (s.table.insertKey ⟨env.newId,name.1,name.2,privateKey,status,env.now,none⟩).map fun table => { s with table }

/-- An instruction that succeeds; `none` is an exception it throws itself. -/
def KeyInstr.run (s : KeyState) (env : KeyEnv) : KeyInstr → Option (KeyState × List KeyInstr)
  | .insertKey name privateKey => (insertRow s name privateKey .pending env).map fun s' => (s',[])
  | .writeKeyFile _ name privateKey => some ({ s with files := setFile s.files name (some privateKey) },[])
  | .deleteKeyFile name => some ({ s with files := setFile s.files name none },[])
  | .selectSync =>
    let rows := s.table.keys.rows.filter (·.status ≠ .retired)
    some (s,rows.map (fun k => .writeKeyFile true k.name k.privateKey) ++ [.selectMap false])
  | .selectMap caught => some ({ s with reads := s.reads+1 },[.writeMap caught (s.reads+1) s.table.activeNames])
  | .writeMap _ snapshot lines => some ({ s with selectorsMap := lines, written := max s.written snapshot },[])
  | .activateTx domain id =>
    match s.table.keys.lookup id with
    | some k => if k.domain = domain then some (makeActive s domain id env.now,[]) else none
    | none => none
  | .retireSelect domain id =>
    match s.table.keys.lookup id with
    | some k => if k.domain = domain then some (s,[.retireUpdate id,.deleteKeyFile k.name,.selectMap false]) else none
    | none => none
  | .retireUpdate id => some ({ s with table := s.table.retireKey id },[])
  | .selectDue => some (s,(dueDomains cfg s.table env.now).map .freshSelector)
  | .freshSelector domain =>
    let taken := (s.table.keys.rows.filter fun k => k.domain = domain ∧ env.nextSelector.isPrefixOf k.selector).map (·.selector)
    some (s,[.startInsert (domain,chooseSelector env.nextSelector taken) env.newKey])
  | .startInsert name privateKey =>
    (insertRow s name privateKey .published env).map fun s' => (s',[.publishTxt name privateKey])
  | .publishTxt name privateKey => some (s,[.startWrite name privateKey])
  | .startWrite name privateKey =>
    some ({ s with files := setFile s.files name (some privateKey) },[.selectMap true])
  | .selectReady => some (s,(readyKeys cfg s.table env.now).map fun k => .txtResolves k.domain k.id)
  | .txtResolves domain id => some (s,if env.resolves then [.promoteTx domain id] else [])
  | .promoteTx domain id => some (makeActive s domain id env.now,[.selectSync])

def execKey (s : KeyState) (instr : KeyInstr) (env : KeyEnv) : Option (KeyState × Outcome KeyInstr) :=
  match if env.fails then none else instr.run cfg s env with
  | some (s',more) => some (s',.next more)
  | none => some (s,instr.failure)

/-- The operations and what they are called with. The key pair of `generate` is made
before its first query. -/
inductive KeyOp where
  | generate (domain selector : JsString) (privateKey : Nat)
  | activate (domain : JsString) (id : Nat)
  | retire (domain : JsString) (id : Nat)
  | rotateDue

def keyOpBody : KeyOp → List KeyInstr
  | .generate domain selector privateKey =>
    [.insertKey (domain,selector) privateKey,.writeKeyFile false (domain,selector) privateKey,.selectMap false]
  | .activate domain id => [.activateTx domain id,.selectSync]
  | .retire domain id => [.retireSelect domain id]
  | .rotateDue => if cfg.enabled then [.selectDue,.selectReady] else []

abbrev KeyTasks := Tasks KeyState KeyInstr
abbrev KeyAction := TaskAction KeyOp KeyEnv

def keyStep : KeyTasks → KeyAction → Option KeyTasks := taskStep (execKey cfg) (keyOpBody cfg)

end Operations

section Statuses
variable {t : KeyTable} {k : DkimRow}

theorem mem_setStatus {p : DkimRow → Bool} {status : KeyStatus} {activatedAt : Option Nat → Option Nat} :
    k ∈ (t.setStatus p status activatedAt).keys.rows ↔
      (k ∈ t.keys.rows ∧ p k = false) ∨
      ∃ k' ∈ t.keys.rows, p k' = true ∧ k = { k' with status, activatedAt := activatedAt k'.activatedAt } := by
  change k ∈ t.keys.rows.map (fun k => if p k then { k with status, activatedAt := activatedAt k.activatedAt } else k) ↔ _
  rw [List.mem_map]
  constructor
  · rintro ⟨k',hk',rfl⟩
    cases hp : p k' with
    | true => exact .inr ⟨k',hk',hp,if_pos rfl⟩
    | false => exact .inl ⟨hk',hp⟩
  · rintro (⟨hk,hp⟩ | ⟨k',hk',hp,rfl⟩)
    · exact ⟨k,hk,by simp [hp]⟩
    · exact ⟨k',hk',by simp [hp]⟩

theorem mem_insertKey {t' : KeyTable} {new : DkimRow} (h : t.insertKey new = some t') :
    k ∈ t'.keys.rows ↔ k ∈ t.keys.rows ∨ k = new := by
  rw [KeyTable.insertKey] at h
  split at h
  · cases h
    change k ∈ t.keys.rows ++ [new] ↔ _
    rw [List.mem_append,List.mem_singleton]
  · simp at h

theorem mem_retireKey (id : Nat) (hk : k ∈ t.keys.rows) :
    ∃ k' ∈ (t.retireKey id).keys.rows, k'.id = k.id ∧ (k.id ≠ id → k' = k) := by
  by_cases hid : k.id = id
  · exact ⟨_,mem_setStatus.mpr (.inr ⟨k,hk,by simpa using hid,rfl⟩),rfl,fun hne => absurd hid hne⟩
  · exact ⟨k,mem_setStatus.mpr (.inl ⟨hk,by simpa using hid⟩),rfl,fun _ => rfl⟩

end Statuses

section Steps
variable {cfg : RotationConfig} {s t : KeyTasks} {a : KeyAction}

variable {sh sh' : KeyState} {env : KeyEnv} {instr : KeyInstr} {more : List KeyInstr}

/-- What an instruction that succeeds does, and what it adds to its operation. -/
inductive KeyEffect (sh : KeyState) (now : Nat) : KeyInstr → KeyState → List KeyInstr → Prop where
  | insertKey {name privateKey new table} (hinsert : sh.table.insertKey new = some table) (hnew : new.status = .pending) :
    KeyEffect sh now (.insertKey name privateKey) { sh with table } []
  | startInsert {name privateKey new table} (hinsert : sh.table.insertKey new = some table)
    (hnew : new.status = .published) :
    KeyEffect sh now (.startInsert name privateKey) { sh with table } [.publishTxt name privateKey]
  | activateTx {domain id} : KeyEffect sh now (.activateTx domain id) (makeActive sh domain id now) []
  | promoteTx {domain id} : KeyEffect sh now (.promoteTx domain id) (makeActive sh domain id now) [.selectSync]
  | retireUpdate {id} : KeyEffect sh now (.retireUpdate id) { sh with table := sh.table.retireKey id } []
  | retireSelect {domain id name} :
    KeyEffect sh now (.retireSelect domain id) sh [.retireUpdate id,.deleteKeyFile name,.selectMap false]
  | writeKeyFile {caught name privateKey} : KeyEffect sh now (.writeKeyFile caught name privateKey)
    { sh with files := setFile sh.files name (some privateKey) } []
  | startWrite {name privateKey} : KeyEffect sh now (.startWrite name privateKey)
    { sh with files := setFile sh.files name (some privateKey) } [.selectMap true]
  | deleteKeyFile {name} : KeyEffect sh now (.deleteKeyFile name) { sh with files := setFile sh.files name none } []
  | selectSync : KeyEffect sh now .selectSync sh
    ((sh.table.keys.rows.filter (·.status ≠ .retired)).map (fun k => .writeKeyFile true k.name k.privateKey) ++
      [.selectMap false])
  | selectMap {caught} : KeyEffect sh now (.selectMap caught) { sh with reads := sh.reads+1 }
    [.writeMap caught (sh.reads+1) sh.table.activeNames]
  | writeMap {caught snapshot lines} : KeyEffect sh now (.writeMap caught snapshot lines)
    { sh with selectorsMap := lines, written := max sh.written snapshot } []
  | selectDue (domains : List JsString) : KeyEffect sh now .selectDue sh (domains.map .freshSelector)
  | freshSelector {domain name privateKey} : KeyEffect sh now (.freshSelector domain) sh [.startInsert name privateKey]
  | publishTxt {name privateKey} : KeyEffect sh now (.publishTxt name privateKey) sh [.startWrite name privateKey]
  | selectReady (ready : List DkimRow) (hready : ∀ k ∈ ready, k ∈ sh.table.keys.rows ∧ k.status = .published) :
    KeyEffect sh now .selectReady sh (ready.map fun k => .txtResolves k.domain k.id)
  | resolved {domain id} : KeyEffect sh now (.txtResolves domain id) sh [.promoteTx domain id]
  | unresolved {domain id} : KeyEffect sh now (.txtResolves domain id) sh []

theorem run_effect (h : instr.run cfg sh env = some (sh',more)) : KeyEffect sh env.now instr sh' more := by
  cases instr with
  | insertKey name privateKey =>
    obtain ⟨_,hinsert,heq⟩ := Option.map_eq_some_iff.mp h
    obtain ⟨table,htable,rfl⟩ := Option.map_eq_some_iff.mp hinsert
    cases heq
    exact .insertKey htable rfl
  | startInsert name privateKey =>
    obtain ⟨_,hinsert,heq⟩ := Option.map_eq_some_iff.mp h
    obtain ⟨table,htable,rfl⟩ := Option.map_eq_some_iff.mp hinsert
    cases heq
    exact .startInsert htable rfl
  | activateTx domain id =>
    simp only [KeyInstr.run] at h
    split at h
    · obtain ⟨-,heq⟩ := Option.ite_none_right_eq_some.mp h
      cases heq
      exact .activateTx
    · simp at h
  | retireSelect domain id =>
    simp only [KeyInstr.run] at h
    split at h
    · obtain ⟨-,heq⟩ := Option.ite_none_right_eq_some.mp h
      cases heq
      exact .retireSelect
    · simp at h
  | selectReady =>
    cases h
    refine .selectReady _ fun k hk => ?_
    obtain ⟨hk,hready⟩ := List.mem_filter.mp hk
    exact ⟨hk,(of_decide_eq_true hready).1⟩
  | txtResolves domain id =>
    cases h
    split
    · exact .resolved
    · exact .unresolved
  | _ =>
    cases h
    constructor

theorem KeyEffect.table {now : Nat} (h : KeyEffect sh now instr sh' more) :
    sh'.table = sh.table ∨
    (∃ new, sh.table.insertKey new = some sh'.table ∧ (new.status = .pending ∨ new.status = .published)) ∨
    (∃ domain id, (instr = .activateTx domain id ∨ instr = .promoteTx domain id) ∧ sh' = makeActive sh domain id now) ∨
    ∃ id, instr = .retireUpdate id ∧ sh'.table = sh.table.retireKey id := by
  cases h with
  | insertKey hinsert hnew => exact .inr (.inl ⟨_,hinsert,.inl hnew⟩)
  | startInsert hinsert hnew => exact .inr (.inl ⟨_,hinsert,.inr hnew⟩)
  | activateTx => exact .inr (.inr (.inl ⟨_,_,.inl rfl,rfl⟩))
  | promoteTx => exact .inr (.inr (.inl ⟨_,_,.inr rfl,rfl⟩))
  | retireUpdate => exact .inr (.inr (.inr ⟨_,rfl,rfl⟩))
  | _ => exact .inl rfl

/-- The next instruction of an operation throws, or runs. -/
theorem keyStep_exec {i : Nat} {rest : List KeyInstr} (hi : s.running[i]? = some (instr :: rest))
    (h : keyStep cfg s (.exec i env) = some t) :
    ((env.fails = true ∨ instr.run cfg s.shared env = none) ∧ t = ⟨s.shared,s.running.set i (instr.failure.continuation rest)⟩) ∨
    ∃ shared more, env.fails = false ∧ instr.run cfg s.shared env = some (shared,more) ∧
      t = ⟨shared,s.running.set i (Outcome.continuation rest (.next more))⟩ := by
  rcases taskStep_cases h with ⟨op,ha,-⟩ | ⟨i',env',instr',rest',shared,outcome,ha,hi',hexec,rfl⟩
  · simp at ha
  · cases ha
    obtain ⟨rfl,rfl⟩ := List.cons.inj (Option.some.inj (hi.symm.trans hi'))
    rw [execKey] at hexec
    split at hexec
    · rename_i shared' more hrun
      cases hexec
      obtain ⟨hfails,hrun⟩ := Option.ite_none_left_eq_some.mp hrun
      exact .inr ⟨_,more,Bool.eq_false_iff.mpr hfails,hrun,rfl⟩
    · rename_i hrun
      cases hexec
      refine .inl ⟨?_,rfl⟩
      by_cases hfails : env.fails = true
      · exact .inl hfails
      · exact .inr (by rwa [if_neg hfails] at hrun)

theorem keyStep_cases (h : keyStep cfg s a = some t) :
    (∃ op, a = .call op ∧ t = ⟨s.shared,s.running ++ [keyOpBody cfg op]⟩) ∨
    ∃ i env instr rest, a = .exec i env ∧ s.running[i]? = some (instr :: rest) ∧
      (((env.fails = true ∨ instr.run cfg s.shared env = none) ∧
        t = ⟨s.shared,s.running.set i (instr.failure.continuation rest)⟩) ∨
      ∃ shared more, env.fails = false ∧ KeyEffect s.shared env.now instr shared more ∧
        t = ⟨shared,s.running.set i (Outcome.continuation rest (.next more))⟩) := by
  rcases taskStep_cases h with ⟨op,ha,ht⟩ | ⟨i,env,instr,rest,_,_,rfl,hi,-,-⟩
  · exact .inl ⟨op,ha,ht⟩
  · refine .inr ⟨i,env,instr,rest,rfl,hi,?_⟩
    rcases keyStep_exec hi h with hfails | ⟨shared,more,hfails,hrun,ht⟩
    · exact .inl hfails
    · exact .inr ⟨shared,more,hfails,run_effect hrun,ht⟩

/-- What an instruction that throws leaves to do it had to do before. -/
theorem pending_failure {instr x : KeyInstr} {rest : List KeyInstr} {i : Nat} (hi : s.running[i]? = some (instr :: rest))
    (h : Tasks.Pending ⟨s.shared,s.running.set i (instr.failure.continuation rest)⟩ x) : s.Pending x := by
  rcases Tasks.pending_exec hi h with h | ⟨more,hmore,hx⟩
  · exact h
  · have hnil : more = [] := by
      unfold KeyInstr.failure at hmore
      split at hmore
      all_goals first | exact (Outcome.next.inj hmore).symm | simp at hmore
    rw [hnil] at hx
    exact absurd hx List.not_mem_nil

end Steps
end JustMail.Dkim
