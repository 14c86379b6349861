import JustMail.Dkim.Keys

/-! Rotation with a DNS provider that fails. The key is committed as published before its
TXT record is sent, and a published key keeps the domain from being due again. -/
namespace JustMail.Dkim
open Foundation

section Model

/-- What the provider answers to `publishTxt`: the zone, the records that are there, and
whether it takes the new one. `none` is an exception; `recorded` is the update of
`dns_records` that comes after. -/
structure ProviderAnswers where
  zone : Option (Option Nat)
  listing : Option (List (Nat × JsString))
  upserted : Bool
  recorded : Bool

/-- A TXT record that the provider has taken. It stands at
`${selector}._domainkey.${domain}`, which the key's name stands for. -/
structure TxtUpsert where
  zone : Nat
  replaced : Option Nat
  name : KeyName
  content : JsString
  deriving DecidableEq

/-- `publishTxt` up to the provider's last answer. -/
def publishTxt (answers : ProviderAnswers) (name : KeyName) (content : JsString) : Option TxtUpsert := do
  let zone ← answers.zone.join
  let existing ← answers.listing
  let found := (existing.find? (·.2 == content)).or existing.head?
  if answers.upserted then some ⟨zone,found.map (·.1),name,content⟩ else none

/-- The keys and operations, the keys that rotation has created, and what the provider has
taken. -/
structure RotationState where
  tasks : KeyTasks
  started : List KeyName
  accepted : List TxtUpsert

abbrev RotationAction := KeyAction × ProviderAnswers

-- `dnsContent` is `dnsRecordContent` of a key pair
variable (cfg : RotationConfig) (dnsContent : Nat → JsString)

def KeyInstr.publishes : KeyInstr → Option (KeyName × Nat)
  | .publishTxt name privateKey => some (name,privateKey)
  | _ => none

def KeyInstr.looksUp : KeyInstr → Option Nat
  | .txtResolves _ id => some id
  | _ => none

/-- What the provider takes in a step. -/
def upsertOf (answers : ProviderAnswers) : Option KeyInstr → Option TxtUpsert
  | some (.publishTxt name privateKey) => publishTxt answers name (dnsContent privateKey)
  | _ => none

/-- `publishTxt` fails as the provider and the update after it do. -/
def KeyEnv.answered (answers : ProviderAnswers) (env : KeyEnv) : Option KeyInstr → KeyEnv
  | some (.publishTxt name privateKey) =>
    { env with fails := (publishTxt answers name (dnsContent privateKey)).isNone || !answers.recorded }
  | _ => env

def answeredAction (answers : ProviderAnswers) (instr : Option KeyInstr) : KeyAction → KeyAction
  | .call op => .call op
  | .exec i env => .exec i (env.answered dnsContent answers instr)

def keyNames (s : KeyTasks) : List KeyName := s.shared.table.keys.rows.map DkimRow.name

/-- What `∈` on a list of key names rests on. -/
instance lawfulKeyName : LawfulBEq KeyName := inferInstance

/-- The key that `startInsert` has added. -/
def startedBy (s t : KeyTasks) : Option KeyInstr → List KeyName
  | some (.startInsert name _) => if name ∈ keyNames t ∧ name ∉ keyNames s then [name] else []
  | _ => []

def rotationStep (s : RotationState) (a : RotationAction) : Option RotationState :=
  let instr := s.tasks.instr a.1
  (keyStep cfg s.tasks (answeredAction dnsContent a.2 instr a.1)).map fun tasks =>
    ⟨tasks,startedBy s.tasks tasks instr ++ s.started,(upsertOf dnsContent a.2 instr).toList ++ s.accepted⟩

def RotationState.rows (s : RotationState) : List DkimRow := s.tasks.shared.table.keys.rows

/-- The provider has taken the TXT record of the key. -/
def HasTxt (s : RotationState) (k : DkimRow) : Prop := ∃ u ∈ s.accepted, u.name = k.name ∧ u.content = dnsContent k.privateKey

/-- Every published key of rotation has its TXT record. -/
def TxtsAccepted (s : RotationState) : Prop := ∀ k ∈ s.rows, k.status = .published → k.name ∈ s.started → HasTxt dnsContent s k

/-- Ticks only, whose lookups find what the provider has taken. -/
def TicksOnly (s : RotationState) (a : RotationAction) : Prop :=
  match a.1 with
  | .call .rotateDue => True
  | .call _ => False
  | .exec _ env => env.resolves = true → ∀ id ∈ (s.tasks.instr a.1).bind KeyInstr.looksUp, ∀ k ∈ s.rows, k.id = id → HasTxt dnsContent s k

/-- A key of the domain is left without TXT record, and whatever ticks follow, it stays so and
no other key is started. -/
def Stuck (s : RotationState) (domain : JsString) : Prop :=
  ∃ k ∈ s.rows, k.domain = domain ∧ k.status = .published ∧ k.name ∈ s.started ∧ ¬HasTxt dnsContent s k ∧
    ∀ t, Run (rotationStep cfg dnsContent) (TicksOnly dnsContent) s t →
      k ∈ t.rows ∧ ¬HasTxt dnsContent t k ∧ ∀ name ∈ t.started, name.1 = domain → name ∈ s.started

/-- The provider finds the zone, lists its records and takes the one it is sent. -/
def PublishLands (s : RotationState) (a : RotationAction) : Prop :=
  ∀ key ∈ (s.tasks.instr a.1).bind KeyInstr.publishes, (publishTxt a.2 key.1 (dnsContent key.2)).isSome = true

/-- Nothing in flight, nothing created or sent by then. -/
def RotationState.start (shared : KeyState) : RotationState := ⟨⟨shared,[]⟩,[],[]⟩

end Model

section Steps
variable {cfg : RotationConfig} {dnsContent : Nat → JsString} {s t : RotationState} {a : RotationAction} {k : DkimRow}

theorem rotationStep_cases (h : rotationStep cfg dnsContent s a = some t) :
    (∃ op answers, a = (.call op,answers) ∧
      t = ⟨⟨s.tasks.shared,s.tasks.running ++ [keyOpBody cfg op]⟩,s.started,s.accepted⟩) ∨
    ∃ i env answers instr rest, a = (.exec i env,answers) ∧ s.tasks.running[i]? = some (instr :: rest) ∧
      t.started = startedBy s.tasks t.tasks (some instr) ++ s.started ∧
      t.accepted = (upsertOf dnsContent answers (some instr)).toList ++ s.accepted ∧
      (t.tasks = ⟨s.tasks.shared,s.tasks.running.set i (instr.failure.continuation rest)⟩ ∨
      ∃ shared more, instr.run cfg s.tasks.shared (env.answered dnsContent answers (some instr)) = some (shared,more) ∧
        t.tasks = ⟨shared,s.tasks.running.set i (Outcome.continuation rest (.next more))⟩) := by
  obtain ⟨action,answers⟩ := a
  obtain ⟨tasks,hstep,rfl⟩ := Option.map_eq_some_iff.mp h
  cases action with
  | call op =>
    cases hstep
    exact .inl ⟨op,answers,rfl,rfl⟩
  | exec i env =>
    obtain ⟨op,hcall,-⟩ | ⟨_,_,instr,rest,hexec,hi,-⟩ := keyStep_cases hstep
    · simp [answeredAction] at hcall
    · cases hexec
      have hinstr : s.tasks.instr (.exec i env : KeyAction) = some instr := Tasks.instr_exec hi
      rw [hinstr] at hstep
      refine .inr ⟨i,env,answers,instr,rest,rfl,hi,by rw [hinstr],by rw [hinstr],?_⟩
      rcases keyStep_exec hi hstep with ⟨-,htasks⟩ | ⟨shared,more,-,hrun,htasks⟩
      · exact .inl htasks
      · exact .inr ⟨shared,more,hrun,htasks⟩

/-- The row that `startInsert` adds, and what comes next. -/
theorem startInsert_run {sh sh' : KeyState} {env : KeyEnv} {name : KeyName} {privateKey : Nat} {more : List KeyInstr}
    (h : (KeyInstr.startInsert name privateKey).run cfg sh env = some (sh',more)) :
    sh.table.insertKey ⟨env.newId,name.1,name.2,privateKey,.published,env.now,none⟩ = some sh'.table ∧ more =
    [.publishTxt name privateKey] := by
  obtain ⟨_,hinsert,heq⟩ := Option.map_eq_some_iff.mp h
  obtain ⟨table,htable,rfl⟩ := Option.map_eq_some_iff.mp hinsert
  cases heq
  exact ⟨htable,rfl⟩

theorem published_setStatus {table : KeyTable} {p : DkimRow → Bool} {status : KeyStatus} {activatedAt : Option Nat → Option Nat}
    (hk : k ∈ (table.setStatus p status activatedAt).keys.rows) (hpublished : k.status = .published) (hstatus : status ≠ .published) :
    k ∈ table.keys.rows := by
  rcases mem_setStatus.mp hk with ⟨hk,-⟩ | ⟨k',-,-,rfl⟩
  · exact hk
  · exact absurd hpublished hstatus

/-- Published keys come from `startInsert` alone. -/
theorem published_run {sh sh' : KeyState} {env : KeyEnv} {instr : KeyInstr} {more : List KeyInstr}
    (h : instr.run cfg sh env = some (sh',more)) (hk : k ∈ sh'.table.keys.rows) (hpublished : k.status = .published) :
    k ∈ sh.table.keys.rows ∨ instr = .startInsert k.name k.privateKey ∧ k.name ∉ sh.table.keys.rows.map DkimRow.name := by
  cases run_effect h with
  | startInsert _ _ =>
    obtain ⟨hinsert,-⟩ := startInsert_run h
    rcases (mem_insertKey hinsert).mp hk with hk | rfl
    · exact .inl hk
    · rw [KeyTable.insertKey] at hinsert
      split at hinsert
      · rename_i hfresh
        exact .inr ⟨rfl,hfresh.2⟩
      · simp at hinsert
  | insertKey hinsert hnew =>
    rcases (mem_insertKey hinsert).mp hk with hk | rfl
    · exact .inl hk
    · simp [hpublished] at hnew
  | activateTx => exact .inl (published_setStatus (published_setStatus hk hpublished (by simp)) hpublished (by simp))
  | promoteTx => exact .inl (published_setStatus (published_setStatus hk hpublished (by simp)) hpublished (by simp))
  | retireUpdate => exact .inl (published_setStatus hk hpublished (by simp))
  | _ => exact .inl hk

/-- The TXT record of the key is the next thing that an operation sends. -/
def Publishing (s : KeyTasks) (k : DkimRow) : Prop := ∃ rest, KeyInstr.publishTxt k.name k.privateKey :: rest ∈ s.running

/-- Every published key of rotation has its TXT record, or is about to be sent. -/
def Announced (dnsContent : Nat → JsString) (s : RotationState) : Prop :=
  ∀ k ∈ s.rows, k.status = .published → k.name ∈ s.started → HasTxt dnsContent s k ∨ Publishing s.tasks k

theorem HasTxt.mono (h : HasTxt dnsContent s k) (haccepted : ∀ u ∈ s.accepted, u ∈ t.accepted) : HasTxt dnsContent t k := by
  obtain ⟨u,hu,hsame⟩ := h
  exact ⟨u,haccepted u hu,hsame⟩

theorem publishTxt_some {answers : ProviderAnswers} {name : KeyName} {content : JsString} {u : TxtUpsert}
    (h : publishTxt answers name content = some u) : u.name = name ∧ u.content = content := by
  obtain ⟨zone,-,h⟩ := Option.bind_eq_some_iff.mp h
  obtain ⟨existing,-,h⟩ := Option.bind_eq_some_iff.mp h
  dsimp only at h
  split at h
  · cases h
    exact ⟨rfl,rfl⟩
  · simp at h

theorem not_startedBy {tasks : KeyTasks} {instr : Option KeyInstr} (hk : k ∈ s.rows) : k.name ∉ startedBy s.tasks tasks instr := by
  have hname : k.name ∈ keyNames s.tasks := List.mem_map_of_mem hk
  intro hstarted
  unfold startedBy at hstarted
  split at hstarted
  · split at hstarted
    · rename_i hnew
      rw [List.mem_singleton.mp hstarted] at hname
      exact hnew.2 hname
    · exact List.not_mem_nil hstarted
  · exact List.not_mem_nil hstarted

theorem announced_step (h : Announced dnsContent s) (hlands : PublishLands dnsContent s a)
    (hstep : rotationStep cfg dnsContent s a = some t) :
    Announced dnsContent t := by
  rcases rotationStep_cases hstep with ⟨op,answers,rfl,rfl⟩ | ⟨i,env,answers,instr,rest,rfl,hi,hstarted,haccepted,htasks⟩
  · intro k hk hpublished hstarted
    refine (h k hk hpublished hstarted).imp_right fun ⟨rest,hrest⟩ => ?_
    exact ⟨rest,List.mem_append_left _ hrest⟩
  · have hinstr : s.tasks.instr (.exec i env : KeyAction) = some instr := Tasks.instr_exec hi
    have hmono : ∀ u ∈ s.accepted, u ∈ t.accepted := fun u hu => haccepted ▸ List.mem_append_right _ hu
    -- a key that was announced before is still
    have hkept : ∀ {k new}, HasTxt dnsContent s k ∨ Publishing s.tasks k → t.tasks.running = s.tasks.running.set i new →
        HasTxt dnsContent t k ∨ Publishing t.tasks k := by
      rintro k new (htxt | ⟨rest',hrest'⟩) hrunning
      · exact .inl (htxt.mono hmono)
      · by_cases hself : KeyInstr.publishTxt k.name k.privateKey :: rest' = instr :: rest
        · cases hself
          obtain ⟨u,hu⟩ := Option.isSome_iff_exists.mp (hlands (k.name,k.privateKey) (by rw [hinstr]; rfl))
          refine .inl ⟨u,?_,publishTxt_some hu⟩
          rw [haccepted,upsertOf,hu]
          exact List.mem_cons_self
        · obtain ⟨j,hj⟩ := List.getElem?_of_mem hrest'
          refine .inr ⟨rest',?_⟩
          rw [hrunning]
          exact List.mem_of_getElem? (getElem?_set_other hi hj hself new)
    intro k hk hpublished hname
    rw [hstarted] at hname
    rcases htasks with htasks | ⟨shared,more,hrun,htasks⟩
    · have hrows : t.rows = s.rows := by rw [RotationState.rows,htasks]; rfl
      have hold : k ∈ s.rows := hrows ▸ hk
      exact hkept (h k hold hpublished ((List.mem_append.mp hname).resolve_left (not_startedBy hold))) (by rw [htasks])
    · have hrows : t.rows = shared.table.keys.rows := by rw [RotationState.rows,htasks]
      rcases published_run hrun (hrows ▸ hk) hpublished with hold | ⟨rfl,-⟩
      · exact hkept (h k hold hpublished ((List.mem_append.mp hname).resolve_left (not_startedBy hold))) (by rw [htasks])
      · obtain ⟨-,rfl⟩ := startInsert_run hrun
        refine .inr ⟨rest,?_⟩
        rw [htasks]
        obtain ⟨hlt,-⟩ := List.getElem?_eq_some_iff.mp hi
        exact List.mem_iff_getElem.mpr ⟨i,by simpa using hlt,by simp [Outcome.continuation]⟩

section Stuck
variable {instr : KeyInstr}

/-- The instruction is one of a tick, starts no key of the domain and does not promote this one. -/
def Harmless (domain : JsString) (id : Nat) : KeyInstr → Prop
  | .insertKey _ _ | .activateTx _ _ | .retireSelect _ _ | .retireUpdate _ | .deleteKeyFile _ => False
  | .freshSelector d => d ≠ domain
  | .startInsert name _ | .publishTxt name _ => name.1 ≠ domain
  | .promoteTx _ id' => id' ≠ id
  | _ => True

/-- The key stands in the way: it is published without TXT record, and nothing in flight changes it. -/
structure Blocked (dnsContent : Nat → JsString) (start : List KeyName) (k : DkimRow) (s : RotationState) : Prop where
  row : k ∈ s.rows
  txt : ¬HasTxt dnsContent s k
  harmless : ∀ x, s.tasks.Pending x → Harmless k.domain k.id x
  started : ∀ name ∈ s.started, name.1 = k.domain → name ∈ start

theorem not_due {table : KeyTable} {now : Nat} (hk : k ∈ table.keys.rows) (hpublished : k.status = .published) :
    k.domain ∉ dueDomains cfg table now := by
  intro hdue
  obtain ⟨active,hactive,hdomain⟩ := List.mem_map.mp hdue
  obtain ⟨-,hwhere⟩ := List.mem_filter.mp hactive
  exact ((of_decide_eq_true hwhere).2.2 k hk hdomain.symm).2 hpublished

theorem mem_makeActive {sh : KeyState} {domain : JsString} {id now : Nat} (hk : k ∈ sh.table.keys.rows)
    (hpublished : k.status = .published)
    (hid : id ≠ k.id) : k ∈ (makeActive sh domain id now).table.keys.rows := by
  refine mem_setStatus.mpr (.inl ⟨mem_setStatus.mpr (.inl ⟨hk,?_⟩),?_⟩)
  · simp [hpublished]
  · simpa using hid.symm

/-- A harmless instruction keeps the key, and what it adds is harmless. -/
theorem harmless_run {sh sh' : KeyState} {env : KeyEnv} {more : List KeyInstr} (h : instr.run cfg sh env = some (sh',more))
    (hk : k ∈ sh.table.keys.rows) (hpublished : k.status = .published) (hharmless : Harmless k.domain k.id instr)
    (hhonest : ∀ domain id, instr = .txtResolves domain id → env.resolves = true → id ≠ k.id) :
    k ∈ sh'.table.keys.rows ∧ ∀ x ∈ more, Harmless k.domain k.id x := by
  cases instr with
  | startInsert name privateKey =>
    obtain ⟨hinsert,rfl⟩ := startInsert_run h
    exact ⟨(mem_insertKey hinsert).mpr (.inl hk),List.forall_mem_singleton.mpr hharmless⟩
  | selectDue =>
    cases h
    refine ⟨hk,fun x hx => ?_⟩
    obtain ⟨domain,hdomain,rfl⟩ := List.mem_map.mp hx
    rintro rfl
    exact not_due hk hpublished hdomain
  | txtResolves domain id =>
    cases h
    refine ⟨hk,fun x hx => ?_⟩
    split at hx
    · rename_i hresolves
      rw [List.mem_singleton.mp hx]
      exact hhonest domain id rfl hresolves
    · exact absurd hx List.not_mem_nil
  | promoteTx domain id =>
    cases h
    exact ⟨mem_makeActive hk hpublished hharmless,List.forall_mem_singleton.mpr trivial⟩
  | selectSync =>
    cases h
    refine ⟨hk,List.forall_mem_append.mpr ⟨?_,List.forall_mem_singleton.mpr trivial⟩⟩
    exact List.forall_mem_map.mpr fun _ _ => trivial
  | selectReady =>
    cases h
    exact ⟨hk,List.forall_mem_map.mpr fun _ _ => trivial⟩
  | freshSelector domain =>
    cases h
    exact ⟨hk,List.forall_mem_singleton.mpr hharmless⟩
  | publishTxt name privateKey =>
    cases h
    exact ⟨hk,List.forall_mem_singleton.mpr trivial⟩
  | startWrite name privateKey =>
    cases h
    exact ⟨hk,List.forall_mem_singleton.mpr trivial⟩
  | selectMap caught =>
    cases h
    exact ⟨hk,List.forall_mem_singleton.mpr trivial⟩
  | writeKeyFile caught name privateKey =>
    cases h
    exact ⟨hk,fun x hx => absurd hx List.not_mem_nil⟩
  | writeMap caught snapshot lines =>
    cases h
    exact ⟨hk,fun x hx => absurd hx List.not_mem_nil⟩
  | _ => exact hharmless.elim

/-- What is started or sent in a step is what its instruction names. -/
theorem startedBy_name {tasks tasks' : KeyTasks} {name : KeyName} (h : name ∈ startedBy tasks tasks' (some instr)) :
    ∃ privateKey, instr = .startInsert name privateKey := by
  unfold startedBy at h
  split at h
  · rename_i name' privateKey hinstr
    split at h
    · rw [List.mem_singleton.mp h]
      exact ⟨privateKey,Option.some.inj hinstr⟩
    · exact absurd h List.not_mem_nil
  · exact absurd h List.not_mem_nil

theorem upsertOf_name {answers : ProviderAnswers} {u : TxtUpsert} (h : upsertOf dnsContent answers (some instr) = some u) :
    ∃ privateKey, instr = .publishTxt u.name privateKey := by
  unfold upsertOf at h
  split at h
  · rename_i name privateKey hinstr
    rw [(publishTxt_some h).1]
    exact ⟨privateKey,Option.some.inj hinstr⟩
  · simp at h

theorem blocked_step {start : List KeyName} (hpublished : k.status = .published) (h : Blocked dnsContent start k s)
    (hticks : TicksOnly dnsContent s a) (hstep : rotationStep cfg dnsContent s a = some t) : Blocked dnsContent start k t := by
  rcases rotationStep_cases hstep with ⟨op,answers,rfl,rfl⟩ | ⟨i,env,answers,instr,rest,rfl,hi,hstarted,haccepted,htasks⟩
  · refine ⟨h.row,h.txt,fun x hx => ?_,h.started⟩
    obtain rfl : op = .rotateDue := by
      cases op with
      | rotateDue => rfl
      | _ => exact hticks.elim
    rcases Tasks.pending_call hx with hx | hx
    · exact h.harmless x hx
    · rw [keyOpBody] at hx
      split at hx
      · rcases List.mem_cons.mp hx with rfl | hx
        · trivial
        · rw [List.mem_singleton.mp hx]
          trivial
      · exact absurd hx List.not_mem_nil
  · have hinstr : s.tasks.instr (.exec i env : KeyAction) = some instr := Tasks.instr_exec hi
    have hharmless := h.harmless instr (Tasks.pending_head hi)
    have htxt : ¬HasTxt dnsContent t k := by
      rintro ⟨u,hu,hname,hcontent⟩
      rw [haccepted] at hu
      rcases List.mem_append.mp hu with hu | hu
      · obtain ⟨privateKey,rfl⟩ := upsertOf_name (Option.mem_toList.mp hu)
        exact hharmless (congrArg Prod.fst hname)
      · exact h.txt ⟨u,hu,hname,hcontent⟩
    have hnames : ∀ name ∈ t.started, name.1 = k.domain → name ∈ start := by
      intro name hname hdomain
      rw [hstarted] at hname
      rcases List.mem_append.mp hname with hname | hname
      · obtain ⟨privateKey,rfl⟩ := startedBy_name hname
        exact absurd hdomain hharmless
      · exact h.started name hname hdomain
    rcases htasks with htasks | ⟨shared,more,hrun,htasks⟩
    · refine ⟨?_,htxt,fun x hx => ?_,hnames⟩
      · rw [RotationState.rows,htasks]
        exact h.row
      · rw [htasks] at hx
        exact h.harmless x (pending_failure hi hx)
    · obtain ⟨hrow,hmore⟩ := harmless_run hrun h.row hpublished hharmless <| by
        rintro domain id rfl hresolves rfl
        exact h.txt (hticks hresolves k.id (by rw [hinstr]; rfl) k h.row rfl)
      refine ⟨?_,htxt,fun x hx => ?_,hnames⟩
      · rw [RotationState.rows,htasks]
        exact hrow
      · rw [htasks] at hx
        rcases Tasks.pending_exec hi hx with hx | ⟨_,hadds,hx⟩
        · exact h.harmless x hx
        · exact hmore x (Outcome.next.inj hadds ▸ hx)

/-- A key of rotation that is published without TXT record when nothing is in flight holds its
domain up for good. -/
theorem stuck_of_unsent (hidle : s.tasks.Idle) (hk : k ∈ s.rows) (hpublished : k.status = .published) (hstarted : k.name ∈ s.started)
    (htxt : ¬HasTxt dnsContent s k) : Stuck cfg dnsContent s k.domain := by
  refine ⟨k,hk,rfl,hpublished,hstarted,htxt,fun t hrun => ?_⟩
  have hblocked : Blocked dnsContent s.started k t := by
    refine hrun.invariant (fun _ _ _ h ha hstep => blocked_step hpublished h ha hstep) ?_
    exact ⟨hk,htxt,fun x hx => absurd hx hidle.not_pending,fun name hname _ => hname⟩
  exact ⟨hblocked.row,hblocked.txt,hblocked.started⟩

end Stuck

/-- As long as the provider takes every record that it is sent, the published keys of rotation
have their TXT records whenever nothing is in flight, and no domain is stuck. -/
theorem rotation_survives {shared : KeyState} (hrun : Run (rotationStep cfg dnsContent) (PublishLands dnsContent) (.start shared) s)
    (hidle : s.tasks.Idle) : TxtsAccepted dnsContent s ∧ ∀ domain, ¬Stuck cfg dnsContent s domain := by
  have hannounced : Announced dnsContent s :=
    hrun.invariant (fun _ _ _ h ha hstep => announced_step h ha hstep) fun k _ _ hstarted => absurd hstarted List.not_mem_nil
  have haccepted : TxtsAccepted dnsContent s := by
    intro k hk hpublished hstarted
    refine (hannounced k hk hpublished hstarted).resolve_right ?_
    rintro ⟨rest,hrest⟩
    exact List.cons_ne_nil _ _ (hidle _ hrest)
  refine ⟨haccepted,?_⟩
  rintro domain ⟨k,hk,-,hpublished,hstarted,htxt,-⟩
  exact htxt (haccepted k hk hpublished hstarted)

instance (dnsContent : Nat → JsString) (s : RotationState) (k : DkimRow) : Decidable (HasTxt dnsContent s k) :=
  inferInstanceAs (Decidable (∃ u ∈ s.accepted, _ ∧ _))

instance (dnsContent : Nat → JsString) (s : RotationState) (a : RotationAction) : Decidable (PublishLands dnsContent s a) :=
  inferInstanceAs (Decidable (∀ key ∈ (s.tasks.instr a.1).bind KeyInstr.publishes, _ = true))

instance (dnsContent : Nat → JsString) (s : RotationState) : (a : RotationAction) → Decidable (TicksOnly dnsContent s a)
  | (.call .rotateDue,_) => inferInstanceAs (Decidable True)
  | (.call (.generate ..),_) | (.call (.activate ..),_) | (.call (.retire ..),_) => inferInstanceAs (Decidable False)
  | (.exec i env,_) => inferInstanceAs (Decidable (env.resolves = true →
      ∀ id ∈ (s.tasks.instr (.exec i env : KeyAction)).bind KeyInstr.looksUp, ∀ k ∈ s.rows, k.id = id → HasTxt dnsContent s k))

def quarterly : RotationConfig := ⟨true,1000,10⟩

def dueState : RotationState :=
  .start ⟨⟨⟨[⟨1,js "ex.com",js "jm202601",7,.active,0,some 0⟩],by decide⟩,by decide⟩,fun _ => none,[],0,0⟩

def tickEnv : KeyEnv := ⟨2000,js "jm202602",2,8,false,false⟩

/-- A tick whose next `n` instructions meet the provider's answers. -/
def tick (answers : ProviderAnswers) (n : Nat) : List RotationAction :=
  (.call .rotateDue,answers) :: List.replicate n (.exec 0 tickEnv,answers)

def takes : ProviderAnswers := ⟨some (some 1),some [],true,true⟩

/-- `findZoneId` throws. -/
def unreachable : ProviderAnswers := ⟨none,some [],true,true⟩

def publishedNames (s : RotationState) : List KeyName := (s.rows.filter (·.status = .published)).map DkimRow.name

theorem successor_sent : ∃ s, Run (rotationStep quarterly decimal) (PublishLands decimal) dueState s ∧
    publishedNames s = [(js "ex.com",js "jm202602")] ∧ TxtsAccepted decimal s := by
  have htrace : (runActions (rotationStep quarterly decimal) (PublishLands decimal) dueState (tick takes 8)).map
      (fun s => (s.tasks.isIdle,publishedNames s)) = some (true,[(js "ex.com",js "jm202602")]) := by
    decide +kernel
  obtain ⟨s,hs,hview⟩ := Option.map_eq_some_iff.mp htrace
  obtain ⟨hidle,hnames⟩ := Prod.mk.inj hview
  have hrun := Run.of_actions hs
  exact ⟨s,hrun,hnames,(rotation_survives hrun (Tasks.idle_of_isIdle hidle)).1⟩

structure RotationView where
  idle : Bool
  rows : List DkimRow
  started : List KeyName
  accepted : List TxtUpsert
  deriving DecidableEq

def rotationView (s : RotationState) : RotationView := ⟨s.tasks.isIdle,s.rows,s.started,s.accepted⟩

/-- The successor of `jm202601`. -/
def successor : DkimRow := ⟨2,js "ex.com",js "jm202602",8,.published,2000,none⟩

/-- The provider is down in one tick: the successor is published without TXT record for good. -/
theorem successor_never_sent : ∃ s, Run (rotationStep quarterly decimal) (TicksOnly decimal) dueState s ∧ s.tasks.Idle ∧
    ¬TxtsAccepted decimal s ∧ Stuck quarterly decimal s (js "ex.com") := by
  have htrace : (runActions (rotationStep quarterly decimal) (TicksOnly decimal) dueState (tick unreachable 5)).map rotationView =
      some ⟨true,dueState.rows ++ [successor],[successor.name],[]⟩ := by
    decide +kernel
  obtain ⟨s,hs,hview⟩ := Option.map_eq_some_iff.mp htrace
  have hidle : s.tasks.Idle := Tasks.idle_of_isIdle (congrArg RotationView.idle hview)
  have hrows : s.rows = dueState.rows ++ [successor] := congrArg RotationView.rows hview
  have hstarted : s.started = [successor.name] := congrArg RotationView.started hview
  have haccepted : s.accepted = [] := congrArg RotationView.accepted hview
  have hmem : successor ∈ s.rows := by rw [hrows]; exact List.mem_append_right _ List.mem_cons_self
  have hname : successor.name ∈ s.started := by rw [hstarted]; exact List.mem_cons_self
  have htxt : ¬HasTxt decimal s successor := by
    rintro ⟨u,hu,-⟩
    rw [haccepted] at hu
    exact List.not_mem_nil hu
  exact ⟨s,.of_actions hs,hidle,fun h => htxt (h successor hmem rfl hname),stuck_of_unsent hidle hmem rfl hname htxt⟩

end Steps
end JustMail.Dkim
