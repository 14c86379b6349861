import JustMail.Foundation.SqlUpsert
import JustMail.Accounts.Directory

/-! The policy of an organisation: `updatePolicy` of `retention/retention.service.ts`. -/
namespace JustMail.Retention
open Foundation Accounts

section Model

/-- The columns of `retention_policies`. -/
inductive PolicyColumn where
  | orgId | enabled | deleteAfterDays | folders | updatedBy | createdAt | updatedAt
  deriving DecidableEq

instance : Fintype PolicyColumn :=
  ⟨{.orgId,.enabled,.deleteAfterDays,.folders,.updatedBy,.createdAt,.updatedAt},fun c => by cases c <;> decide⟩

def PolicyColumn.type : PolicyColumn → SqlType
  | .orgId | .updatedBy => .uuid
  | .enabled => .boolean
  | .deleteAfterDays => .int4
  | .folders => .textArray
  | .createdAt | .updatedAt => .timestamptz

/-- `users` are the ids that `updated_by` may refer to. -/
def policySchema (users : Nat → Bool) : Schema PolicyColumn where
  type := PolicyColumn.type
  key := .orgId
  default now
    | .enabled => some false
    | .folders => some [js "Trash",js "Junk"]
    | .createdAt | .updatedAt => some now
    | .orgId | .deleteAfterDays | .updatedBy => none
  admits
    | .orgId,v | .enabled,v | .folders,v | .createdAt,v | .updatedAt,v => v.isSome
    | .deleteAfterDays,_ => true
    | .updatedBy,v => v.all users

abbrev Policies (db : AccountDb) := Table (Row.key (s := policySchema db.hasUser))

/-- A field that is absent is `none`; `delete_after_days` may be given as null. -/
structure UpdateRetentionRequest where
  enabled : Option Bool
  deleteAfterDays : Option (Option Int)
  folders : Option (List JsString)

structure RetentionPolicy where
  orgId : Nat
  enabled : Bool
  deleteAfterDays : Option Int
  folders : List JsString
  masterConfigured : Bool
  updatedAt : Int
  deriving DecidableEq

inductive PolicyFailure where
  | access (e : AccessError)
  | sql (e : SqlError)

def toPolicy {users : Nat → Bool} (masterConfigured : Bool) (r : Row (policySchema users)) : RetentionPolicy where
  orgId := (r.get .orgId).get (r.admitted .orgId)
  enabled := (r.get .enabled).get (r.admitted .enabled)
  deleteAfterDays := r.get .deleteAfterDays
  folders := (r.get .folders).get (r.admitted .folders)
  masterConfigured := masterConfigured
  updatedAt := (r.get .updatedAt).get (r.admitted .updatedAt)

/-- The calls of `push`. -/
def UpdateRetentionRequest.provided (req : UpdateRetentionRequest) : List (PolicyColumn × BoundValue) :=
  (req.enabled.toList.map fun b => (.enabled,.boolean b)) ++
  (req.deleteAfterDays.toList.map fun d => (.deleteAfterDays,d.elim .null .number)) ++
  (req.folders.toList.map fun l => (.folders,.strings l))

def policyUpsert (req : UpdateRetentionRequest) : Upsert PolicyColumn where
  values := [(.orgId,.param 1),(.updatedBy,.param 2)]
  sets := (.updatedAt,.now) :: (.updatedBy,.param 2) :: pushed 3 req.provided

variable (db : AccountDb) (now : Nat) (masterConfigured : Bool) (policies : Policies db)

def updatePolicy (orgId userId : Nat) (req : UpdateRetentionRequest) : Except PolicyFailure (Policies db × RetentionPolicy) := do
  let _ ← (requireRole db now orgId userId .admin).mapError .access
  let (policies,row) ← ((policyUpsert req).execute (.uuid orgId :: .uuid userId :: req.provided.map Prod.snd) now policies).mapError .sql
  pure (policies,toPolicy masterConfigured row)

end Model

section Statement
variable {db : AccountDb} {policies : Policies db} {orgId userId : Nat} {req : UpdateRetentionRequest} {users : Nat → Bool}

theorem mem_provided {c : PolicyColumn} : c ∈ req.provided.map Prod.fst ↔
    (c = .enabled ∧ req.enabled.isSome) ∨ (c = .deleteAfterDays ∧ req.deleteAfterDays.isSome) ∨ (c = .folders ∧ req.folders.isSome) := by
  obtain ⟨enabled,deleteAfterDays,folders⟩ := req
  cases enabled <;> cases deleteAfterDays <;> cases folders <;> simp [UpdateRetentionRequest.provided]

def UpdateRetentionRequest.bound (req : UpdateRetentionRequest) : (c : PolicyColumn) → Option c.type.Value
  | .enabled => req.enabled
  | .deleteAfterDays => req.deleteAfterDays.join
  | .folders => req.folders.bind fun l => (l.mapM storedText).toOption
  | .orgId | .updatedBy | .createdAt | .updatedAt => none

/-- Each value can be written as its column's type. -/
def Bindable (req : UpdateRetentionRequest) : Prop :=
  (∀ n, req.deleteAfterDays = some (some n) → InInt4 n) ∧ ∀ l, req.folders = some l → ∃ l', l.mapM storedText = .ok l'

theorem binds_iff : Binds (policySchema users) req.provided ↔ Bindable req := by
  obtain ⟨enabled,deleteAfterDays,folders⟩ := req
  have henabled (b : Bool) : ∃ v, bindAs .boolean (.boolean b) = .ok v := ⟨some b,rfl⟩
  have hdays (d : Option Int) : (∃ v, bindAs .int4 (d.elim .null .number) = .ok v) ↔ ∀ n, d = some n → InInt4 n := by
    cases d with
    | none => exact iff_of_true ⟨none,rfl⟩ (by simp)
    | some n =>
      by_cases hn : InInt4 n
      · exact ⟨fun _ m hm => Option.some.inj hm ▸ hn,fun _ => ⟨some n,if_pos hn⟩⟩
      · refine iff_of_false ?_ fun h => hn (h n rfl)
        rintro ⟨v,hv⟩
        simp [bindAs,hn] at hv
  have hfolders (l : List JsString) : (∃ v, bindAs .textArray (.strings l) = .ok v) ↔ ∃ l', l.mapM storedText = .ok l' := by
    rw [bindAs]
    cases l.mapM storedText with
    | error e => simp [Except.map]
    | ok l' => exact ⟨fun _ => ⟨l',rfl⟩,fun _ => ⟨some l',rfl⟩⟩
  rw [Binds,UpdateRetentionRequest.provided,List.forall_mem_append,List.forall_mem_append,Bindable]
  constructor
  · rintro ⟨⟨-,hd⟩,hf⟩
    constructor
    · intro n hn
      exact (hdays (some n)).mp (hd (.deleteAfterDays,.number n) (by simp [show deleteAfterDays = some (some n) from hn])) n rfl
    · intro l hl
      exact (hfolders l).mp (hf (.folders,.strings l) (by simp [show folders = some l from hl]))
  · rintro ⟨hd,hf⟩
    refine ⟨⟨?_,?_⟩,?_⟩
    · intro p hp
      obtain ⟨b,-,rfl⟩ := List.mem_map.mp hp
      exact henabled b
    · intro p hp
      obtain ⟨d,hmem,rfl⟩ := List.mem_map.mp hp
      refine (hdays d).mpr fun n hn => hd n ?_
      rw [← hn]
      simpa using hmem
    · intro p hp
      obtain ⟨l,hmem,rfl⟩ := List.mem_map.mp hp
      exact (hfolders l).mpr (hf l (by simpa using hmem))

theorem bindAs_bound (h : Binds (policySchema users) req.provided) :
    ∀ p ∈ req.provided, bindAs ((policySchema users).type p.1) p.2 = .ok (req.bound p.1) := by
  intro p hp
  obtain ⟨v,hv⟩ := h p hp
  rw [hv]
  rcases List.mem_append.mp hp with hp' | hp'
  · rcases List.mem_append.mp hp' with hp' | hp'
    · obtain ⟨b,hb,rfl⟩ := List.mem_map.mp hp'
      rw [UpdateRetentionRequest.bound,show req.enabled = some b by simpa using hb]
      exact hv.symm
    · obtain ⟨d,hd,rfl⟩ := List.mem_map.mp hp'
      rw [UpdateRetentionRequest.bound,show req.deleteAfterDays = some d by simpa using hd]
      cases d with
      | none => exact hv.symm
      | some n =>
        by_cases hn : InInt4 n
        · exact hv.symm.trans (if_pos hn)
        · exact absurd (hv.symm.trans (if_neg hn)) (by simp)
  · obtain ⟨l,hl,rfl⟩ := List.mem_map.mp hp'
    rw [UpdateRetentionRequest.bound,show req.folders = some l by simpa using hl]
    refine hv.symm.trans ?_
    change (l.mapM storedText).map some = .ok (l.mapM storedText).toOption
    cases hl' : l.mapM storedText with
    | error e =>
      have hv' : (l.mapM storedText).map some = .ok v := hv
      rw [hl'] at hv'
      cases hv'
    | ok l' => rfl

def policyParams (orgId userId : Nat) (req : UpdateRetentionRequest) : List BoundValue :=
  .uuid orgId :: .uuid userId :: req.provided.map Prod.snd

/-- What goes in where the organisation has no policy. -/
def proposedPolicy (now orgId userId : Nat) : (c : PolicyColumn) → Option c.type.Value
  | .orgId => some orgId
  | .updatedBy => some userId
  | c => (policySchema (fun _ => true)).default now c

/-- What the policy of the organisation becomes. -/
def updatedPolicy (now userId : Nat) (req : UpdateRetentionRequest) (old : (c : PolicyColumn) → Option c.type.Value) :
    (c : PolicyColumn) → Option c.type.Value
  | .updatedAt => some (now : Int)
  | .updatedBy => some userId
  | .enabled => if req.enabled.isSome then req.bound .enabled else old .enabled
  | .deleteAfterDays => if req.deleteAfterDays.isSome then req.bound .deleteAfterDays else old .deleteAfterDays
  | .folders => if req.folders.isSome then req.bound .folders else old .folders
  | c => old c

/-- The types that the placeholders get. -/
def policyTypes (req : UpdateRetentionRequest) : ParamTypes := fun n =>
  if n < 3 then (if n = 1 ∨ n = 2 then some .uuid else none) else (req.provided[n-3]?).map fun p => p.1.type

theorem settle_policyUpsert (users : Nat → Bool) (req : UpdateRetentionRequest) :
    settleTypes (policySchema users) (fun _ => none) ((policyUpsert req).values ++ (policyUpsert req).sets) = .ok (policyTypes req) := by
  have hstart : ∀ n, 3 ≤ n →
    Function.update (Function.update (fun _ => none) 1 (some SqlType.uuid)) 2 (some SqlType.uuid) n = none := fun n hn => by
    rw [Function.update_of_ne (by omega),Function.update_of_ne (by omega)]
  refine (settleTypes_pushed (s := policySchema users) req.provided hstart).trans (congrArg Except.ok (funext fun n => ?_))
  unfold policyTypes
  split
  · rename_i hn
    match n with
    | 0 => rfl
    | 1 => rfl
    | 2 => rfl
  · rfl

theorem arity_policyUpsert (orgId userId : Nat) (req : UpdateRetentionRequest) :
    (policyUpsert req).arity = (policyParams orgId userId req).length := by
  refine (arity_pushed req.provided 2).trans ?_
  simp only [policyParams,List.length_cons,List.length_map]
  omega

theorem bindAll_policyParams : bindAll (policyTypes req) 1 (policyParams orgId userId req) = .ok () ↔ Bindable req :=
  (bindAll_pushed (s := policySchema fun _ => true) (fun i => by
    rw [policyTypes,if_neg (by omega),Nat.add_sub_cancel_left]
    rfl)).trans binds_iff

theorem assign_policyUpsert (now : Nat) (h : Bindable req) (old : (c : PolicyColumn) → Option c.type.Value) :
    assignAll (policySchema users) (policyParams orgId userId req) now old (policyUpsert req).sets old =
      .ok (updatedPolicy now userId req old) := by
  have hparams (i : Nat) : paramValue (policyParams orgId userId req) (3+i) = ((req.provided[i]?).map Prod.snd).getD .null := by
    rw [paramValue,policyParams,show 3+i-1 = i+2 by omega,List.getElem?_cons_succ,List.getElem?_cons_succ,List.getElem?_map]
  refine (assignAll_pushed (s := policySchema users) hparams (bindAs_bound (binds_iff.mpr h)) now old _).trans
    (congrArg Except.ok (funext fun c => ?_))
  simp only [mem_provided]
  cases c <;> simp [updatedPolicy,Function.update] <;> rfl

theorem execute_policyUpsert (now : Nat) (orgId userId : Nat) (h : Bindable req) (policies : Policies db) :
    (policyUpsert req).execute (policyParams orgId userId req) now policies =
      (acceptRow (policySchema db.hasUser) (proposedPolicy now orgId userId)).bind fun proposed =>
        match policies.lookup proposed.key with
        | none => .ok (policies.upsert proposed,proposed)
        | some old => (acceptRow (policySchema db.hasUser) (updatedPolicy now userId req old.get)).bind fun updated =>
          .ok (policies.upsert updated,updated) := by
  have hvalues : assignAll (policySchema db.hasUser) (policyParams orgId userId req) now ((policySchema db.hasUser).default now)
      (policyUpsert req).values ((policySchema db.hasUser).default now) = .ok (proposedPolicy now orgId userId) := by
    refine congrArg Except.ok (funext fun c => ?_)
    cases c <;> rfl
  rw [Upsert.execute_eq (settle_policyUpsert _ req) (arity_policyUpsert orgId userId req),bindAll_policyParams.mpr h,hvalues]
  change ((acceptRow _ _).bind fun proposed => _) = _
  refine congrArg _ (funext fun proposed => ?_)
  cases policies.lookup proposed.key with
  | none => rfl
  | some old =>
    change ((assignAll _ _ _ old.get _ old.get).bind fun v => _) = _
    rw [assign_policyUpsert now h old.get]
    rfl

/-- A value that no column can be given stops the statement. -/
theorem execute_unbindable (now : Nat) (orgId userId : Nat) (h : ¬Bindable req) (policies : Policies db) :
    ∃ e, (policyUpsert req).execute (policyParams orgId userId req) now policies = .error e := by
  rw [Upsert.execute_eq (settle_policyUpsert _ req) (arity_policyUpsert orgId userId req)]
  cases hbind : bindAll (policyTypes req) 1 (policyParams orgId userId req) with
  | error e => exact ⟨e,rfl⟩
  | ok _ => exact absurd (bindAll_policyParams.mp hbind) h

theorem admit_of {v : (c : PolicyColumn) → Option c.type.Value} (h : ∀ c, (policySchema users).admits c (v c) = true) :
    acceptRow (policySchema users) v = .ok ⟨v,h⟩ := dif_pos h

theorem admit_proposed (now orgId : Nat) (h : users userId = true) :
    ∀ c, (policySchema users).admits c (proposedPolicy now orgId userId c) = true := by
  intro c
  cases c with
  | updatedBy => exact h
  | orgId | enabled | deleteAfterDays | folders | createdAt | updatedAt => rfl

theorem admit_updated (now : Nat) (h : users userId = true) (hbind : Bindable req) (old : Row (policySchema users)) :
    ∀ c, (policySchema users).admits c (updatedPolicy now userId req old.get c) = true := by
  intro c
  cases c with
  | orgId => exact old.admitted .orgId
  | enabled =>
    by_cases henabled : req.enabled.isSome = true
    · exact (congrArg _ (if_pos henabled)).trans henabled
    · exact (congrArg _ (if_neg henabled)).trans (old.admitted .enabled)
  | deleteAfterDays => rfl
  | folders =>
    cases hfolders : req.folders with
    | none =>
      have hold : updatedPolicy now userId req old.get .folders = old.get .folders := if_neg (by simp [hfolders])
      rw [hold]
      exact old.admitted .folders
    | some l =>
      obtain ⟨l',hl'⟩ := hbind.2 l hfolders
      have hnew : updatedPolicy now userId req old.get .folders = some l' := by
        refine (if_pos (by simp [hfolders])).trans ?_
        rw [UpdateRetentionRequest.bound,hfolders]
        change (l.mapM storedText).toOption = some l'
        rw [hl']
        rfl
      rw [hnew]
      rfl
  | updatedBy => exact h
  | createdAt => exact old.admitted .createdAt
  | updatedAt => rfl

/-- Nobody but a user can be written down as the one who has made the change. -/
theorem execute_not_user (now : Nat) (orgId : Nat) (req : UpdateRetentionRequest) (h : db.hasUser userId = false)
    (policies : Policies db) :
    ∃ e, (policyUpsert req).execute (policyParams orgId userId req) now policies = .error e := by
  by_cases hbind : Bindable req
  · refine ⟨.constraintViolation,?_⟩
    have haccept : acceptRow (policySchema db.hasUser) (proposedPolicy now orgId userId) = .error .constraintViolation := by
      refine dif_neg fun hall => ?_
      have hby : db.hasUser userId = true := hall .updatedBy
      rw [h] at hby
      cases hby
    rw [execute_policyUpsert now orgId userId hbind,haccept]
    rfl
  · exact execute_unbindable now orgId userId hbind policies

/-- The row that the statement leaves and returns. -/
theorem execute_bindable (now : Nat) (orgId : Nat) (huser : db.hasUser userId = true) (hbind : Bindable req) (policies : Policies db) :
    ∃ row, (policyUpsert req).execute (policyParams orgId userId req) now policies = .ok (policies.upsert row,row) ∧ row.key = some orgId ∧
      row.get = match policies.lookup (some orgId) with
        | some old => updatedPolicy now userId req old.get
        | none => proposedPolicy now orgId userId := by
  rw [execute_policyUpsert now orgId userId hbind,admit_of (admit_proposed now orgId huser)]
  cases hold : policies.lookup (some orgId) with
  | none =>
    refine ⟨⟨_,admit_proposed now orgId huser⟩,?_,rfl,rfl⟩
    change (match policies.lookup (some orgId) with | none => _ | some old => _) = _
    rw [hold]
  | some old =>
    have hkey : old.key = some orgId := Table.key_of_lookup hold
    refine ⟨⟨_,admit_updated now huser hbind old⟩,?_,hkey,rfl⟩
    change (match policies.lookup (some orgId) with | none => _ | some old => _) = _
    rw [hold]
    dsimp only
    rw [admit_of (admit_updated now huser hbind old)]
    rfl

end Statement

section Exact
variable {db : AccountDb} {policies : Policies db} {orgId userId now : Nat} {req : UpdateRetentionRequest} {master : Bool}

/-- Each field of the request is in the row and in the answer, and nothing else has changed. -/
structure ExactUpdate (before after : Policies db) (now orgId : Nat) (req : UpdateRetentionRequest) (policy : RetentionPolicy) : Prop where
  row : ∃ row, after.lookup (some orgId) = some row ∧
    row.get .enabled = req.enabled.or (previous before now (some orgId) .enabled) ∧
    row.get .deleteAfterDays = req.deleteAfterDays.getD (previous before now (some orgId) .deleteAfterDays) ∧
    row.get .folders = req.folders.or (previous before now (some orgId) .folders) ∧
    some policy.enabled = row.get .enabled ∧ policy.deleteAfterDays = row.get .deleteAfterDays ∧ some policy.folders = row.get .folders
  others : ∀ id ≠ orgId, after.lookup (some id) = before.lookup (some id)

/-- The columns can hold the values as they are. -/
def Storable (req : UpdateRetentionRequest) : Prop :=
  (∀ n, req.deleteAfterDays = some (some n) → InInt4 n) ∧ ∀ l, req.folders = some l → ∀ f ∈ l, 0 ∉ f ∧ wellFormed f = true

/-- Each value is the default of its column. -/
def AsDefault (req : UpdateRetentionRequest) : Prop :=
  (∀ b, req.enabled = some b → b = false) ∧ (∀ d, req.deleteAfterDays = some d → d = none) ∧
  ∀ l, req.folders = some l → l = [js "Trash",js "Junk"]

theorem storable_iff : Storable req ↔ Bindable req ∧ ∀ l, req.folders = some l → l.mapM storedText = .ok l := by
  simp only [Storable,← storedText_eq_iff,← mapM_storedText_eq_iff]
  exact ⟨fun ⟨hd,hf⟩ => ⟨⟨hd,fun l hl => ⟨l,hf l hl⟩⟩,hf⟩,fun ⟨⟨hd,_⟩,hf⟩ => ⟨hd,hf⟩⟩

theorem AsDefault.bindable (h : AsDefault req) : Bindable req := by
  refine ⟨fun n hn => (nomatch h.2.1 _ hn),fun l hl => ?_⟩
  obtain rfl := h.2.2 l hl
  exact ⟨_,mapM_storedText_eq_iff.mpr (by simp only [storedText_eq_iff]; decide)⟩

theorem updatePolicy_eq_ok {after : Policies db} {policy : RetentionPolicy} :
    updatePolicy db now master policies orgId userId req = .ok (after,policy) ↔
      (∃ role, requireRole db now orgId userId .admin = .ok role) ∧
      ∃ row, (policyUpsert req).execute (policyParams orgId userId req) now policies = .ok (after,row) ∧ toPolicy master row = policy := by
  unfold updatePolicy
  change _ ↔ _ ∧ ∃ row, (policyUpsert req).execute (.uuid orgId :: .uuid userId :: req.provided.map Prod.snd) now policies = _ ∧ _
  cases requireRole db now orgId userId .admin with
  | error e => simp [Except.mapError,bind,Except.bind]
  | ok role =>
    cases (policyUpsert req).execute (.uuid orgId :: .uuid userId :: req.provided.map Prod.snd) now policies with
    | error e => simp [Except.mapError,bind,Except.bind]
    | ok result => simp [Except.mapError,bind,Except.bind,pure,Except.pure,Prod.ext_iff]

/-- The answer is the row, and other rows stay. -/
theorem exact_upsert {row : Row (policySchema db.hasUser)} (hkey : row.key = some orgId) :
    ExactUpdate policies (policies.upsert row) now orgId req (toPolicy master row) ↔
      row.get .enabled = req.enabled.or (previous policies now (some orgId) .enabled) ∧
      row.get .deleteAfterDays = req.deleteAfterDays.getD (previous policies now (some orgId) .deleteAfterDays) ∧
      row.get .folders = req.folders.or (previous policies now (some orgId) .folders) := by
  have hlookup (id : Nat) : (policies.upsert row).lookup (some id) = if id = orgId then some row else policies.lookup (some id) := by
    refine (Table.lookup_upsert policies row (some id)).trans ?_
    by_cases hid : id = orgId
    · exact (if_pos ((congrArg some hid).trans hkey.symm)).trans (if_pos hid).symm
    · exact (if_neg fun h => hid (Option.some.inj (h.trans hkey))).trans (if_neg hid).symm
  have hsame := hlookup orgId
  rw [if_pos rfl] at hsame
  constructor
  · rintro ⟨⟨row',hrow',henabled,hdays,hfolders,-⟩,-⟩
    obtain rfl : row = row' := Option.some.inj (hsame.symm.trans hrow')
    exact ⟨henabled,hdays,hfolders⟩
  · rintro ⟨henabled,hdays,hfolders⟩
    refine ⟨⟨row,hsame,henabled,hdays,hfolders,Option.some_get _,rfl,Option.some_get _⟩,fun id hid => ?_⟩
    rw [hlookup,if_neg hid]

/-- The row in conflict gets every field; what folders are stored depends on their names. -/
theorem exact_present {old row : Row (policySchema db.hasUser)} (hold : policies.lookup (some orgId) = some old)
    (hkey : row.key = some orgId) (hget : row.get = updatedPolicy now userId req old.get) (hbind : Bindable req) :
    ExactUpdate policies (policies.upsert row) now orgId req (toPolicy master row) ↔
      ∀ l, req.folders = some l → l.mapM storedText = .ok l := by
  rw [exact_upsert hkey,hget,previous,hold]
  have henabled : updatedPolicy now userId req old.get .enabled = req.enabled.or (old.get .enabled) := by
    cases h : req.enabled with
    | none => exact if_neg (by simp [h])
    | some b => exact (if_pos (by simp [h])).trans h
  have hdays : updatedPolicy now userId req old.get .deleteAfterDays = req.deleteAfterDays.getD (old.get .deleteAfterDays) := by
    cases h : req.deleteAfterDays with
    | none => exact if_neg (by simp [h])
    | some d => exact (if_pos (by simp [h])).trans (congrArg Option.join h)
  have hfolders : updatedPolicy now userId req old.get .folders = req.folders.or (old.get .folders) ↔
      ∀ l, req.folders = some l → l.mapM storedText = .ok l := by
    cases h : req.folders with
    | none => exact iff_of_true (if_neg (by simp [h])) (by simp)
    | some l =>
      obtain ⟨l',hl'⟩ := hbind.2 l h
      have hnew : updatedPolicy now userId req old.get .folders = some l' := by
        refine (if_pos (by simp [h])).trans ?_
        rw [UpdateRetentionRequest.bound,h]
        change (l.mapM storedText).toOption = some l'
        rw [hl']
        rfl
      rw [hnew]
      refine ⟨fun hsame m hm => ?_,fun hall => ?_⟩
      · obtain rfl : l' = l := Option.some.inj hsame
        exact Option.some.inj hm ▸ hl'
      · obtain rfl : l' = l := Except.ok.inj (hl'.symm.trans (hall l rfl))
        rfl
  exact ⟨fun h => hfolders.mp h.2.2,fun h => ⟨henabled,hdays,hfolders.mpr h⟩⟩

/-- A row that comes in has the defaults, whatever the request says. -/
theorem exact_absent {row : Row (policySchema db.hasUser)} (hold : policies.lookup (some orgId) = none)
    (hkey : row.key = some orgId) (hget : row.get = proposedPolicy now orgId userId) :
    ExactUpdate policies (policies.upsert row) now orgId req (toPolicy master row) ↔ AsDefault req := by
  rw [exact_upsert hkey,hget,previous,hold]
  obtain ⟨enabled,deleteAfterDays,folders⟩ := req
  refine and_congr ?_ (and_congr ?_ ?_)
  · change some false = enabled.or (some false) ↔ _
    cases enabled <;> simp [eq_comm]
  · change none = deleteAfterDays.getD none ↔ _
    cases deleteAfterDays <;> simp [eq_comm]
  · change some [js "Trash",js "Junk"] = folders.or (some [js "Trash",js "Junk"]) ↔ _
    cases folders <;> simp [eq_comm]

/-- An update that goes through has passed the check of the role, the placeholders and the reference to the user. -/
theorem checked_of_updatePolicy {after : Policies db} {policy : RetentionPolicy}
    (h : updatePolicy db now master policies orgId userId req = .ok (after,policy)) :
    (∃ role, requireRole db now orgId userId .admin = .ok role) ∧ Bindable req ∧ db.hasUser userId = true := by
  obtain ⟨hrole,row,hexecute,-⟩ := updatePolicy_eq_ok.mp h
  refine ⟨hrole,?_,?_⟩
  · by_contra hnot
    obtain ⟨e,he⟩ := execute_unbindable now orgId userId hnot policies
    rw [he] at hexecute
    cases hexecute
  · by_contra hnot
    obtain ⟨e,he⟩ := execute_not_user now orgId req (Bool.eq_false_iff.mpr hnot) policies
    rw [he] at hexecute
    cases hexecute

/-- What such an update leaves depends on whether there is a policy. -/
theorem exact_of_bindable (hbind : Bindable req) (huser : db.hasUser userId = true)
    (hrole : ∃ role, requireRole db now orgId userId .admin = .ok role) :
    (∃ after policy, updatePolicy db now master policies orgId userId req = .ok (after,policy) ∧
      ExactUpdate policies after now orgId req policy) ↔
      match policies.lookup (some orgId) with
      | some _ => ∀ l, req.folders = some l → l.mapM storedText = .ok l
      | none => AsDefault req := by
  obtain ⟨row,hexecute,hkey,hget⟩ := execute_bindable now orgId huser hbind policies
  have hexact : (∃ after policy, updatePolicy db now master policies orgId userId req = .ok (after,policy) ∧
      ExactUpdate policies after now orgId req policy) ↔
        ExactUpdate policies (policies.upsert row) now orgId req (toPolicy master row) := by
    constructor
    · rintro ⟨after,policy,hok,hexact⟩
      obtain ⟨-,row',hexecute',rfl⟩ := updatePolicy_eq_ok.mp hok
      obtain ⟨rfl,rfl⟩ := Prod.mk.inj (Except.ok.inj (hexecute.symm.trans hexecute'))
      exact hexact
    · exact fun h => ⟨_,_,updatePolicy_eq_ok.mpr ⟨hrole,row,hexecute,rfl⟩,h⟩
  rw [hexact]
  cases hold : policies.lookup (some orgId) with
  | none =>
    rw [hold] at hget
    exact exact_absent hold hkey hget
  | some old =>
    rw [hold] at hget
    exact exact_present hold hkey hget hbind

theorem updatePolicy_exact_iff (db : AccountDb) (now : Nat) (master : Bool) (policies : Policies db) (orgId userId : Nat)
    (req : UpdateRetentionRequest) :
    (∃ after policy, updatePolicy db now master policies orgId userId req = .ok (after,policy) ∧
      ExactUpdate policies after now orgId req policy) ↔
      (∃ role, requireRole db now orgId userId .admin = .ok role) ∧ db.hasUser userId = true ∧
      match policies.lookup (some orgId) with
      | some _ => Storable req
      | none => AsDefault req := by
  constructor
  · rintro ⟨after,policy,hok,hexact⟩
    obtain ⟨hrole,hbind,huser⟩ := checked_of_updatePolicy hok
    have hcase := (exact_of_bindable hbind huser hrole).mp ⟨after,policy,hok,hexact⟩
    refine ⟨hrole,huser,?_⟩
    cases hold : policies.lookup (some orgId) with
    | none =>
      rw [hold] at hcase
      exact hcase
    | some old =>
      rw [hold] at hcase
      exact storable_iff.mpr ⟨hbind,hcase⟩
  · rintro ⟨hrole,huser,hcase⟩
    cases hold : policies.lookup (some orgId) with
    | none =>
      rw [hold] at hcase
      refine (exact_of_bindable (AsDefault.bindable hcase) huser hrole).mpr ?_
      rw [hold]
      exact hcase
    | some old =>
      rw [hold] at hcase
      obtain ⟨hbind,hstored⟩ := storable_iff.mp hcase
      refine (exact_of_bindable hbind huser hrole).mpr ?_
      rw [hold]
      exact hstored

def thirtyDays : UpdateRetentionRequest := ⟨some true,some (some 30),none⟩

theorem first_policy_dropped :
    (updatePolicy soleAdmin 0 true .empty 1 1 thirtyDays).toOption.map (fun r => (r.2.enabled,r.2.deleteAfterDays)) = some (false,none) ∧
    ¬∃ after policy, updatePolicy soleAdmin 0 true .empty 1 1 thirtyDays = .ok (after,policy) ∧
      ExactUpdate .empty after 0 1 thirtyDays policy := by
  have hrun : (updatePolicy soleAdmin 0 true .empty 1 1 thirtyDays).toOption.map (fun r => (r.2.enabled,r.2.deleteAfterDays)) =
      some (false,none) := by decide
  refine ⟨hrun,?_⟩
  rintro ⟨after,policy,hok,⟨row,-,henabled,-,-,hpolicy,-⟩,-⟩
  have hsome : some policy.enabled = some true := hpolicy.trans henabled
  rw [hok] at hrun
  have hfalse : policy.enabled = false := (Prod.mk.inj (Option.some.inj hrun)).1
  rw [hfalse] at hsome
  cases hsome

end Exact
end JustMail.Retention
