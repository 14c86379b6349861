import JustMail.Accounts.Directory
import JustMail.Backups.Plan
import JustMail.Foundation.SqlUpsert

/-! The backup schedule of an organisation: `updateSchedule` of `backups/backups.service.ts`. -/
namespace JustMail.Backups
open Foundation Accounts

section Model

inductive BackupKind where
  | full | mail | db | attachments
  deriving DecidableEq

def BackupKind.text : BackupKind → JsString
  | .full => js "full"
  | .mail => js "mail"
  | .db => js "db"
  | .attachments => js "attachments"

def BackupFrequency.text : BackupFrequency → JsString
  | .daily => js "daily"
  | .weekly => js "weekly"
  | .monthly => js "monthly"

/-- The columns of `backup_schedules`. -/
inductive ScheduleColumn where
  | orgId | destination | kinds | frequency | retentionDays | enabled | lastRunAt | nextRunAt | updatedBy | updatedAt
  deriving DecidableEq

instance : Fintype ScheduleColumn :=
  ⟨{.orgId,.destination,.kinds,.frequency,.retentionDays,.enabled,.lastRunAt,.nextRunAt,.updatedBy,.updatedAt},
    fun c => by cases c <;> decide⟩

def ScheduleColumn.type : ScheduleColumn → SqlType
  | .orgId | .updatedBy => .uuid
  | .destination | .frequency => .text
  | .kinds => .textArray
  | .retentionDays => .int4
  | .enabled => .boolean
  | .lastRunAt | .nextRunAt | .updatedAt => .timestamptz

/-- `users` are the ids that `updated_by` may refer to. -/
def scheduleSchema (users : Nat → Bool) : Schema ScheduleColumn where
  type := ScheduleColumn.type
  key := .orgId
  default now
    | .destination => some []
    | .kinds => some [js "full"]
    | .frequency => some (js "daily")
    | .retentionDays => some (7 : Int)
    | .enabled => some true
    | .updatedAt => some now
    | .orgId | .lastRunAt | .nextRunAt | .updatedBy => none
  admits
    | .orgId,v | .destination,v | .kinds,v | .retentionDays,v | .enabled,v | .updatedAt,v => v.isSome
    | .frequency,v => let v : Option JsString := v; [BackupFrequency.daily,.weekly,.monthly].any fun f => v = some f.text
    | .lastRunAt,_ | .nextRunAt,_ => true
    | .updatedBy,v => v.all users

abbrev Schedules (db : AccountDb) := Table (Row.key (s := scheduleSchema db.hasUser))

structure UpdateBackupScheduleRequest where
  destination : Option JsString
  kinds : Option (List BackupKind)
  frequency : Option BackupFrequency
  retentionDays : Option Int
  enabled : Option Bool

structure BackupSchedule where
  orgId : Option Nat
  destination : JsString
  kinds : List JsString
  frequency : JsString
  retentionDays : Int
  enabled : Bool
  lastRunAt : Option Int
  nextRunAt : Option Int
  updatedAt : Option Int
  deriving DecidableEq

inductive ScheduleFailure where
  | access (e : AccessError)
  | sql (e : SqlError)
  deriving DecidableEq

def toSchedule {users : Nat → Bool} (r : Row (scheduleSchema users)) : BackupSchedule where
  orgId := r.get .orgId
  destination := (r.get .destination).getD []
  kinds := (r.get .kinds).getD [js "full"]
  frequency := (r.get .frequency).getD (js "daily")
  retentionDays := (r.get .retentionDays).getD (7 : Int)
  enabled := (r.get .enabled).getD true
  lastRunAt := r.get .lastRunAt
  nextRunAt := r.get .nextRunAt
  updatedAt := r.get .updatedAt

namespace UpdateBackupScheduleRequest
variable (req : UpdateBackupScheduleRequest)

/-- The values as the driver gets them, null where a field is absent. -/
def values : List BoundValue :=
  [req.destination.elim .null .string,
    req.kinds.elim .null fun l => .strings (l.map BackupKind.text),
    req.frequency.elim .null fun f => .string f.text,
    req.retentionDays.elim .null .number,
    req.enabled.elim .null .boolean]

/-- The calls of `push`. -/
def provided : List (ScheduleColumn × BoundValue) :=
  (req.destination.toList.map fun d => (.destination,.string d)) ++
  (req.kinds.toList.map fun l => (.kinds,.strings (l.map BackupKind.text))) ++
  (req.frequency.toList.map fun f => (.frequency,.string f.text)) ++
  (req.retentionDays.toList.map fun n => (.retentionDays,.number n)) ++
  (req.enabled.toList.map fun b => (.enabled,.boolean b))

end UpdateBackupScheduleRequest

def scheduleUpsert (req : UpdateBackupScheduleRequest) : Upsert ScheduleColumn where
  values :=
    [(.orgId,.param 1),
      (.destination,.orElse 3 (.quoted [])),
      (.kinds,.orElse 4 (.quoted (js "\x7bfull\x7d"))),
      (.frequency,.orElse 5 (.quoted (js "daily"))),
      (.retentionDays,.orElse 6 (.int 7)),
      (.enabled,.orElse 7 (.boolean true)),
      (.updatedBy,.param 2)]
  sets := (.updatedAt,.now) :: (.updatedBy,.param 2) :: pushed 3 req.provided

variable (db : AccountDb) (now : Nat) (schedules : Schedules db)

def updateSchedule (orgId userId : Nat) (req : UpdateBackupScheduleRequest) : Except ScheduleFailure (Schedules db × BackupSchedule) := do
  let _ ← (requireRole db now orgId userId .admin).mapError .access
  let (schedules,row) ← ((scheduleUpsert req).execute (.uuid orgId :: .uuid userId :: req.values) now schedules).mapError .sql
  pure (schedules,toSchedule row)

end Model

section Exact
variable {db : AccountDb}

/-- Each field of the request is in the row, the other fields are as they were, and so are the rows of other
organisations. -/
structure ExactSchedule (before after : Schedules db) (now orgId : Nat) (req : UpdateBackupScheduleRequest) : Prop where
  row : ∃ row, after.lookup (some orgId) = some row ∧
    row.get .destination = req.destination.or (previous before now (some orgId) .destination) ∧
    row.get .kinds = (req.kinds.map (·.map BackupKind.text)).or (previous before now (some orgId) .kinds) ∧
    row.get .frequency = (req.frequency.map BackupFrequency.text).or (previous before now (some orgId) .frequency) ∧
    row.get .retentionDays = req.retentionDays.or (previous before now (some orgId) .retentionDays) ∧
    row.get .enabled = req.enabled.or (previous before now (some orgId) .enabled)
  others : ∀ id ≠ orgId, after.lookup (some id) = before.lookup (some id)

/-- A fallback of text gives the placeholder of `kinds` the type text, which its column does not take. -/
theorem scheduleUpsert_rejected {users : Nat → Bool} (req : UpdateBackupScheduleRequest) (params : List BoundValue) (now : Int)
    (schedules : Table (Row.key (s := scheduleSchema users))) :
    (scheduleUpsert req).execute params now schedules = .error (.datatypeMismatch .textArray .text) := by
  have hsettle : settleTypes (scheduleSchema users) (fun _ => none) ((scheduleUpsert req).values ++ (scheduleUpsert req).sets) =
      .error (.datatypeMismatch .textArray .text) := rfl
  rw [Upsert.execute,hsettle]
  rfl

theorem updateSchedule_rejected (now : Nat) (schedules : Schedules db) {orgId userId : Nat} (req : UpdateBackupScheduleRequest)
    (hrole : ∃ role, requireRole db now orgId userId .admin = .ok role) :
    updateSchedule db now schedules orgId userId req = .error (.sql (.datatypeMismatch .textArray .text)) := by
  obtain ⟨role,hrole⟩ := hrole
  unfold updateSchedule
  rw [hrole,scheduleUpsert_rejected]
  rfl

theorem updateSchedule_never_exact (db : AccountDb) (now : Nat) (schedules : Schedules db) (orgId userId : Nat)
    (req : UpdateBackupScheduleRequest) :
    ¬∃ after schedule, updateSchedule db now schedules orgId userId req = .ok (after,schedule) ∧
    ExactSchedule schedules after now orgId req := by
  rintro ⟨after,schedule,hok,-⟩
  cases hrole : requireRole db now orgId userId .admin with
  | error e =>
    unfold updateSchedule at hok
    rw [hrole] at hok
    cases hok
  | ok role =>
    rw [updateSchedule_rejected now schedules req ⟨role,hrole⟩] at hok
    cases hok

/-- The schedule as it first comes in. -/
def oneSchedule : Schedules soleAdmin :=
  ⟨[⟨Function.update ((scheduleSchema soleAdmin.hasUser).default 0) .orgId (some (1 : Nat)),fun c => by cases c <;> decide⟩],
    List.nodup_singleton _⟩

theorem disabling_rejected :
    updateSchedule soleAdmin 0 oneSchedule 1 1 ⟨none,none,none,none,some false⟩ = .error (.sql (.datatypeMismatch .textArray .text)) ∧
    ¬∃ after schedule, updateSchedule soleAdmin 0 oneSchedule 1 1 ⟨none,none,none,none,some false⟩ = .ok (after,schedule) ∧
      ExactSchedule oneSchedule after 0 1 ⟨none,none,none,none,some false⟩ := by
  have hrejected := updateSchedule_rejected 0 oneSchedule ⟨none,none,none,none,some false⟩
    (show ∃ role, requireRole soleAdmin 0 1 1 .admin = .ok role from ⟨.admin,by decide⟩)
  refine ⟨hrejected,?_⟩
  rintro ⟨after,schedule,hok,-⟩
  rw [hrejected] at hok
  cases hok

end Exact
end JustMail.Backups
