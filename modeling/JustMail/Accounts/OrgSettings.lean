import JustMail.Foundation.Runs
import JustMail.Accounts.IdToken
import JustMail.Accounts.Invites
import JustMail.Webmail.CredentialAgree

/-! `SettingsService`: the settings of organisations, in one table with those of the platform and
with the sealed passwords of `WebmailCredentialStore`. -/
namespace JustMail.Accounts
open Foundation Postfix Webmail

section Model

/-- The number that a UUID stands for, by which rows refer to it. -/
def uuidValue (orgId : UuidText) : Nat := (orgId.text.filter (· ≠ unit '-')).foldl (fun n c => 16 * n + hexValue c) 0

structure SettingRow where
  key : JsString
  value : Json
  updatedBy : Option Nat
  updatedAt : Nat

structure SettingView where
  key : JsString
  value : Json
  updatedAt : Nat

structure AttachmentLimits where
  maxTotalBytes : Nat
  maxCount : Nat
  deriving DecidableEq

/-- The order of the database on texts, `Math.floor` of a JSON number that is positive and finite,
and the limits of the configuration. -/
structure SettingsEnv where
  collate : JsString → JsString → Bool
  floorPositive : JsString → Option Nat
  limits : AttachmentLimits

inductive SettingsError where
  | access (e : AccessError)
  | database
  deriving DecidableEq

variable (env : SettingsEnv) (db : AccountDb) (settings : Table SettingRow.key) (now : Nat)

/-- `` `org:${orgId}.` ``. -/
def orgScope (orgId : UuidText) : JsString := js "org:" ++ orgId.text ++ js "."

def listPattern (orgId : UuidText) (keyPrefix : Option JsString) : JsString :=
  (keyPrefix.filter fun p => (orgScope orgId).isPrefixOf p).getD (orgScope orgId) ++ js "%"

def listSettings (orgId : UuidText) (userId : Nat) (keyPrefix : Option JsString) : Except SettingsError (List SettingView) :=
  match requireRole db now (uuidValue orgId) userId .viewer with
  | .error e => .error (.access e)
  | .ok _ =>
    let rows := settings.rows.filter fun r => like (listPattern orgId keyPrefix) r.key
    .ok ((rows.mergeSort fun r r' => env.collate r.key r'.key).map fun r => ⟨r.key,r.value,r.updatedAt⟩)

def ATTACHMENT_LIMITS_KEY (orgId : UuidText) : JsString := js "org:" ++ orgId.text ++ js ".attachments"

def overrideOf (v : Option Json) (name : String) (fallback : Nat) : Nat :=
  match v.bind (Json.field (js name)) with
  | some (.number text) => (env.floorPositive text).getD fallback
  | _ => fallback

def attachmentLimits (orgId : UuidText) : AttachmentLimits :=
  let v := (settings.lookup (ATTACHMENT_LIMITS_KEY orgId)).map (·.value)
  ⟨overrideOf env v "max_total_bytes" env.limits.maxTotalBytes,overrideOf env v "max_count" env.limits.maxCount⟩

/-- The statement fails without a value, and where `updated_by` is not a user. -/
def upsertSetting (principal : SessionPrincipal) (orgId : UuidText) (key : JsString) (value : Option Json) :
    Except SettingsError (Table SettingRow.key) :=
  match requireRole db now (uuidValue orgId) principal.userId .admin with
  | .error e => .error (.access e)
  | .ok _ => match value, db.users.lookup principal.userId with
    | some value, some _ => .ok (settings.upsert ⟨key,value,some principal.userId,now⟩)
    | _, _ => .error .database

structure SettingsState where
  settings : Table SettingRow.key
  now : Nat
  log : List (UuidText × List SettingView)

inductive SettingsAction where
  | list (orgId : UuidText) (userId : Nat) (keyPrefix : Option JsString)
  | upsert (principal : SessionPrincipal) (orgId : UuidText) (key : JsString) (value : Option Json)
  | wait (millis : Nat)

/-- One call after the other; what `list` returns is kept in the log. -/
def orgSettingsStep (s : SettingsState) : SettingsAction → Option SettingsState
  | .list orgId userId keyPrefix => some (match listSettings env db s.settings s.now orgId userId keyPrefix with
    | .error _ => s
    | .ok rows => { s with log := s.log ++ [(orgId,rows)] })
  | .upsert principal orgId key value => some (match upsertSetting db s.settings s.now principal orgId key value with
    | .error _ => s
    | .ok settings => { s with settings := settings })
  | .wait millis => some { s with now := s.now + millis }

/-- The user has a role in no other organisation. -/
def RolesOnlyIn (org userId : Nat) : Prop := ∀ now org' minRole role, requireRole db now org' userId minRole = .ok role → org' = org

def ByMembersOf (org : Nat) : SettingsAction → Prop
  | .list _ userId _ => RolesOnlyIn db org userId
  | .upsert principal _ _ _ => RolesOnlyIn db org principal.userId
  | .wait _ => True

/-- A setting of the organisation, or a sealed password. -/
def Foreign (org : Nat) (key : JsString) : Prop :=
  (∃ orgId, uuidValue orgId = org ∧ orgScope orgId <+: key) ∨ js "webmail.session:" <+: key

/-- An `upsert` that is admitted writes neither to the settings of the organisation nor to sealed passwords. -/
def KeepsClear (org : Nat) (s : SettingsState) : SettingsAction → Prop
  | .upsert principal orgId key _ => (requireRole db s.now (uuidValue orgId) principal.userId .admin).isOk = true → ¬Foreign org key
  | _ => True

/-- Members of organisation `a` leave what is foreign to them alone, and are shown settings of theirs only. -/
structure SettingsIsolated (a b : Nat) (s t : SettingsState) : Prop where
  rows : ∀ key, Foreign b key → t.settings.lookup key = s.settings.lookup key
  limits : ∀ orgId, uuidValue orgId = b → attachmentLimits env t.settings orgId = attachmentLimits env s.settings orgId
  listed : ∀ result ∈ t.log, uuidValue result.1 = a ∧ ∀ row ∈ result.2, orgScope result.1 <+: row.key

end Model

section Isolation
variable {env : SettingsEnv} {db : AccountDb} {a b : Nat} {s t u : SettingsState} {orgId orgId' : UuidText} {key : JsString}

theorem plain_orgScope (orgId : UuidText) : ∀ c ∈ orgScope orgId, isPlain c = true := by
  have horg : ∀ c ∈ js "org:", isPlain c = true := by decide
  have hdot : ∀ c ∈ js ".", isPlain c = true := by decide
  intro c hc
  rcases List.mem_append.mp hc with hc | hc
  · rcases List.mem_append.mp hc with hc | hc
    · exact horg c hc
    · exact isPlain_of_isUuidUnit (orgId.units c hc)
  · exact hdot c hc

/-- Whatever the caller adds to the scope, the pattern of `list` keeps it. -/
theorem listPattern_eq (orgId : UuidText) (keyPrefix : Option JsString) :
    ∃ rest, listPattern orgId keyPrefix = orgScope orgId ++ rest := by
  rw [listPattern]
  cases hkept : keyPrefix.filter fun p => (orgScope orgId).isPrefixOf p with
  | none => exact ⟨js "%",rfl⟩
  | some p =>
    obtain ⟨rest,hrest⟩ := List.isPrefixOf_iff_prefix.mp (Option.filter_eq_some_iff.mp hkept).2
    exact ⟨rest ++ js "%",by rw [Option.getD_some,← hrest,List.append_assoc]⟩

theorem scope_of_listed {keyPrefix : Option JsString} {userId now : Nat} {settings : Table SettingRow.key} {rows : List SettingView}
    (h : listSettings env db settings now orgId userId keyPrefix = .ok rows) :
    (∃ role, requireRole db now (uuidValue orgId) userId .viewer = .ok role) ∧ ∀ row ∈ rows, orgScope orgId <+: row.key := by
  rw [listSettings] at h
  split at h
  · simp at h
  · rename_i role hrole
    refine ⟨⟨role,hrole⟩,fun view hview => ?_⟩
    rw [← Except.ok.inj h] at hview
    obtain ⟨row,hrow,rfl⟩ := List.mem_map.mp hview
    obtain ⟨-,hlike⟩ := List.mem_filter.mp (List.mem_mergeSort.mp hrow)
    obtain ⟨rest,hrest⟩ := listPattern_eq orgId keyPrefix
    rw [hrest] at hlike
    exact isPrefix_of_like (plain_orgScope orgId) hlike

/-- What an `upsert` that succeeds has written. -/
theorem upsertSetting_ok {principal : SessionPrincipal} {value : Option Json} {now : Nat} {settings settings' : Table SettingRow.key}
    (h : upsertSetting db settings now principal orgId key value = .ok settings') :
    (requireRole db now (uuidValue orgId) principal.userId .admin).isOk = true ∧
    ∃ row : SettingRow, row.key = key ∧ settings' = settings.upsert row := by
  rw [upsertSetting.eq_def] at h
  split at h
  · simp at h
  · rename_i hrole
    refine ⟨by rw [hrole]; rfl,?_⟩
    split at h
    · exact ⟨_,rfl,(Except.ok.inj h).symm⟩
    · simp at h

theorem foreign_limits (h : uuidValue orgId = b) : Foreign b (ATTACHMENT_LIMITS_KEY orgId) := by
  refine .inl ⟨orgId,h,js "attachments",?_⟩
  have htext : js ".attachments" = js "." ++ js "attachments" := by decide
  rw [orgScope,ATTACHMENT_LIMITS_KEY,htext,List.append_assoc]

/-- The limits depend on foreign rows alone. -/
theorem SettingsIsolated.of_rows (hrows : ∀ key, Foreign b key → t.settings.lookup key = s.settings.lookup key)
    (hlisted : ∀ result ∈ t.log, uuidValue result.1 = a ∧ ∀ row ∈ result.2, orgScope result.1 <+: row.key) :
    SettingsIsolated env a b s t := by
  refine ⟨hrows,fun orgId horg => ?_,hlisted⟩
  rw [attachmentLimits,attachmentLimits,hrows _ (foreign_limits horg)]

theorem isolated_step {action : SettingsAction} (h : SettingsIsolated env a b s t)
    (hallowed : ByMembersOf db a action ∧ KeepsClear db b t action) (hstep : orgSettingsStep env db t action = some u) :
    SettingsIsolated env a b s u := by
  obtain ⟨hmember,hclear⟩ := hallowed
  cases action with
  | list orgId userId keyPrefix =>
    rw [orgSettingsStep] at hstep
    cases hstep
    split
    · exact h
    · rename_i rows hlist
      obtain ⟨⟨role,hrole⟩,hscope⟩ := scope_of_listed hlist
      refine .of_rows h.rows fun result hresult => ?_
      rcases List.mem_append.mp hresult with hresult | hresult
      · exact h.listed result hresult
      · rw [List.mem_singleton.mp hresult]
        exact ⟨hmember _ _ _ role hrole,hscope⟩
  | upsert principal orgId key value =>
    rw [orgSettingsStep] at hstep
    cases hstep
    split
    · exact h
    · rename_i settings hupsert
      obtain ⟨hadmitted,row,rfl,rfl⟩ := upsertSetting_ok hupsert
      refine .of_rows (fun key hforeign => ?_) h.listed
      have hother : key ≠ row.key := by
        rintro rfl
        exact hclear hadmitted hforeign
      rw [Table.lookup_upsert,if_neg hother]
      exact h.rows key hforeign
  | wait millis =>
    cases hstep
    exact ⟨h.rows,h.limits,h.listed⟩

/-- Settings are isolated in every run in which no `upsert` names a key that is foreign to its caller. -/
theorem settings_isolated {settings : Table SettingRow.key} {now : Nat}
    (hrun : Run (orgSettingsStep env db) (fun s action => ByMembersOf db a action ∧ KeepsClear db b s action) ⟨settings,now,[]⟩ t) :
    SettingsIsolated env a b ⟨settings,now,[]⟩ t := by
  have hstart : SettingsIsolated env a b ⟨settings,now,[]⟩ ⟨settings,now,[]⟩ := .of_rows (fun _ _ => rfl) (by simp)
  exact hrun.invariant (fun _ _ _ h hallowed hstep => isolated_step h hallowed hstep) hstart

/-- No two organisations share a key. -/
theorem orgScope_inj (h : orgScope orgId <+: key) (h' : orgScope orgId' <+: key) : orgId = orgId' := by
  obtain ⟨rest,rfl⟩ := h
  obtain ⟨rest',h'⟩ := h'
  simp only [orgScope,List.append_assoc] at h'
  have htext := List.append_inj (List.append_cancel_left h') (by rw [orgId.length,orgId'.length])
  exact UuidText.text_inj.mp htext.1.symm

theorem not_foreign_of_scope (h : orgScope orgId <+: key) (hother : uuidValue orgId ≠ b) : ¬Foreign b key := by
  rintro (⟨orgId',horg,hscope⟩ | hsession)
  · rw [orgScope_inj h hscope] at hother
    exact hother horg
  · obtain ⟨rest,rfl⟩ := h
    obtain ⟨rest',hsession⟩ := hsession
    have hsessions : (js "webmail.session:").head? = some (unit 'w') := by decide
    have horgs : (js "org:").head? = some (unit 'o') := by decide
    have hhead := congrArg List.head? hsession
    simp only [orgScope,List.head?_append,hsessions,horgs,Option.some_or,Option.some.injEq] at hhead
    exact absurd hhead (by decide)

/-- Any order of keys, whole numbers, and the limits of the configuration. -/
def plainSettings : SettingsEnv := ⟨fun _ _ => true,fun text => some (text.foldl (fun n c => 10 * n + (c.toNat - 48)) 0),⟨25000000,10⟩⟩

def firstOrg : UuidText := ⟨js "00000000-0000-0000-0000-000000000001",by decide,by decide⟩
def secondOrg : UuidText := ⟨js "00000000-0000-0000-0000-000000000002",by decide,by decide⟩

theorem admin_in_first : RolesOnlyIn twoOrgsDb 1 1 := by
  intro now org' minRole role h
  by_contra hother
  have hnone : twoOrgsDb.members.lookup (org',1) = none := by
    rw [Table.lookup_eq_none]
    simp [twoOrgsDb,MemberRow.key,Ne.symm hother]
  rw [requireRole,hnone] at h
  simp [keyRole,twoOrgsDb,Table.empty,Table.lookup] at h

def limitTo (count : String) : Json := .object [(js "max_count",.number (js count))]

/-- The admin of organisation 1 has set the limit of an organisation. -/
def limited (orgId : UuidText) (count : String) : SettingsState :=
  ⟨Table.empty.upsert ⟨ATTACHMENT_LIMITS_KEY orgId,limitTo count,some 1,0⟩,0,[]⟩

def setLimit (orgId : UuidText) (count : String) : SettingsAction :=
  .upsert adminPrincipal firstOrg (ATTACHMENT_LIMITS_KEY orgId) (some (limitTo count))

def readLimit : SettingsAction := .list firstOrg 1 (some (orgScope firstOrg ++ js "%_"))

/-- The admin of organisation 1 sets a limit there and reads it with a pattern. -/
theorem own_settings_isolated : ∃ t, Run (orgSettingsStep plainSettings twoOrgsDb)
    (fun s action => ByMembersOf twoOrgsDb 1 action ∧ KeepsClear twoOrgsDb 2 s action) ⟨.empty,0,[]⟩ t ∧
    (attachmentLimits plainSettings t.settings firstOrg).maxCount = 3 ∧ t.log.map (·.2.length) = [1] ∧
    SettingsIsolated plainSettings 1 2 ⟨.empty,0,[]⟩ t := by
  have hclear : ¬Foreign 2 (ATTACHMENT_LIMITS_KEY firstOrg) :=
    not_foreign_of_scope (List.isPrefixOf_iff_prefix.mp (show (orgScope firstOrg).isPrefixOf _ = true by decide)) (by decide)
  have hset : Run (orgSettingsStep plainSettings twoOrgsDb)
      (fun s action => ByMembersOf twoOrgsDb 1 action ∧ KeepsClear twoOrgsDb 2 s action) ⟨.empty,0,[]⟩ (limited firstOrg "3") :=
    .tail (setLimit firstOrg "3") (.refl _) ⟨admin_in_first,fun _ => hclear⟩ rfl
  have hrun := hset.tail readLimit ⟨admin_in_first,trivial⟩ rfl
  exact ⟨_,hrun,by decide +kernel,by decide +kernel,settings_isolated hrun⟩

/-- The admin of organisation 1 sets the limit of organisation 2. -/
theorem foreign_limit_set :
    ∃ t, Run (orgSettingsStep plainSettings twoOrgsDb) (fun _ action => ByMembersOf twoOrgsDb 1 action) ⟨.empty,0,[]⟩ t ∧
    (attachmentLimits plainSettings t.settings secondOrg).maxCount = 1 ∧ ¬SettingsIsolated plainSettings 1 2 ⟨.empty,0,[]⟩ t := by
  refine ⟨limited secondOrg "1",.tail (setLimit secondOrg "1") (.refl _) admin_in_first rfl,by decide +kernel,fun hisolated => ?_⟩
  have hlimits := hisolated.limits secondOrg (by decide)
  revert hlimits
  decide +kernel

end Isolation
end JustMail.Accounts
