import JustMail.Foundation.DayNumbers
import JustMail.Foundation.Runs

/-! When a backup schedule fires: `backups/backup-plan.ts`, and the ticks of `runDue` on one schedule. -/
namespace JustMail.Backups
open JustMail.Foundation

inductive BackupFrequency where
  | daily
  | weekly
  | monthly
  deriving DecidableEq

/-- Next fire time for a cadence, measured from a completed run; nothing for an invalid date. -/
def nextRun (t : Instant) : BackupFrequency → Option Instant
  | .daily => timeClip (t.setUTCDate (t.day + 1))
  | .weekly => timeClip (t.setUTCDate (t.day + 7))
  | .monthly => timeClip (t.setUTCMonth (t.getUTCMonth + 1))

/-- The cadence of a row of `backup_schedules`. -/
structure Schedule where
  frequency : BackupFrequency
  retentionDays : Nat
  enabled : Bool
  lastRunAt : Option Instant
  nextRunAt : Option Instant
  deriving DecidableEq

def isDue (s : Schedule) (now : Instant) : Bool :=
  s.enabled && match s.nextRunAt with
    | none => true
    | some next => decide (next.millis ≤ now.millis)

def retentionCutoff (now : Instant) (retentionDays : Nat) : Option Int :=
  let ms := now.millis - retentionDays*86400000
  if InTimeRange ms then some ms else none

def Schedule.fired (s : Schedule) (now next : Instant) : Schedule := { s with lastRunAt := some now, nextRunAt := some next }

/-- No statement carries an invalid date. -/
def Schedule.advance (s : Schedule) (now : Instant) : Schedule :=
  match nextRun now s.frequency with
  | some next => s.fired now next
  | none => s

/-- A schedule with the times at which it was found due. -/
structure Cadence where
  schedule : Schedule
  runs : List Instant
  deriving DecidableEq

/-- What a tick of `runDue` makes of one schedule. -/
def Cadence.tick (c : Cadence) (now : Instant) : Cadence :=
  if isDue c.schedule now then ⟨c.schedule.advance now,c.runs ++ [now]⟩ else c

section Calendar
variable {t u : Instant} {f : BackupFrequency}

/-- A next run that follows the calendar. -/
structure Follows (t : Instant) (f : BackupFrequency) (u : Instant) : Prop where
  later : t.millis < u.millis
  time : u.timeOfDay = t.timeOfDay
  cadence : match f with
    | .daily => u.millis = t.millis + MS_PER_DAY
    | .weekly => u.millis = t.millis + 7*MS_PER_DAY
    | .monthly => u.monthNumber = t.monthNumber + 1 ∧ u.day = min t.day t.daysInNextMonth

/-- The days to the next run. -/
def spanOf (t : Instant) : BackupFrequency → Nat
  | .daily => 1
  | .weekly => 7
  | .monthly => daysInMonth t.year t.month

/-- The next month has the day, and dates reach that far. -/
def CalendarAllows (t : Instant) (f : BackupFrequency) : Prop :=
  (f = .monthly → t.day ≤ t.daysInNextMonth) ∧ InTimeRange (t.millis + spanOf t f*MS_PER_DAY)

instance (t : Instant) (f : BackupFrequency) : Decidable (CalendarAllows t f) := inferInstanceAs (Decidable (_ ∧ _))

/-- The date before its clip. -/
def landing (t : Instant) : BackupFrequency → Instant
  | .daily => t.setUTCDate (t.day + 1)
  | .weekly => t.setUTCDate (t.day + 7)
  | .monthly => t.setUTCMonth t.month

theorem nextRun_eq (t : Instant) (f : BackupFrequency) : nextRun t f = timeClip (landing t f) := by
  have hnext : t.getUTCMonth + 1 = t.month := Nat.sub_add_cancel t.month_range.1
  cases f with
  | daily => rfl
  | weekly => rfl
  | monthly => rw [nextRun,hnext,landing]

theorem timeOfDay_landing (t : Instant) (f : BackupFrequency) : (landing t f).timeOfDay = t.timeOfDay := by
  cases f with
  | daily => exact Instant.timeOfDay_setUTCDate _ t
  | weekly => exact Instant.timeOfDay_setUTCDate _ t
  | monthly => exact Instant.timeOfDay_setUTCMonth _ t

theorem millis_landing (t : Instant) (f : BackupFrequency) : (landing t f).millis = t.millis + spanOf t f*MS_PER_DAY := by
  refine Instant.millis_of_dayNumber ?_ (timeOfDay_landing t f)
  cases f with
  | daily => exact Instant.dayNumber_setUTCDate 1 t
  | weekly => exact Instant.dayNumber_setUTCDate 7 t
  | monthly => exact Instant.dayNumber_setUTCMonth t

theorem landing_later (t : Instant) (f : BackupFrequency) : t.millis < (landing t f).millis := by
  have hspan : 0 < spanOf t f := by
    have := daysInMonth_ge t.year t.month
    cases f with
    | daily => exact Nat.one_pos
    | weekly => exact Nat.succ_pos 6
    | monthly => exact Nat.lt_of_lt_of_le (by decide) this
  rw [millis_landing]
  simp only [MS_PER_DAY]
  omega

theorem nextRun_eq_some_iff : nextRun t f = some u ↔ InTimeRange (t.millis + spanOf t f*MS_PER_DAY) ∧ landing t f = u := by
  rw [nextRun_eq,timeClip,millis_landing]
  simp

/-- A day that the next month lacks runs over into the month after it. -/
theorem follows_landing_iff (t : Instant) (f : BackupFrequency) :
    Follows t f (landing t f) ↔ (f = .monthly → t.day ≤ t.daysInNextMonth) := by
  constructor
  · rintro ⟨-,-,hcadence⟩ rfl
    refine Nat.le_of_not_lt fun hpast => ?_
    have hskip : (landing t .monthly).monthNumber = t.monthNumber + 2 := Instant.setUTCMonth_past hpast
    rw [hcadence.1] at hskip
    omega
  · intro hday
    refine ⟨landing_later t f,timeOfDay_landing t f,?_⟩
    cases f with
    | daily => simpa [spanOf] using millis_landing t .daily
    | weekly => simpa [spanOf] using millis_landing t .weekly
    | monthly =>
      obtain ⟨hmonth,hsame⟩ := Instant.setUTCMonth_within (hday rfl)
      exact ⟨hmonth,hsame.trans (Nat.min_eq_left (hday rfl)).symm⟩

theorem follows_iff (t : Instant) (f : BackupFrequency) :
    (∃ u, nextRun t f = some u ∧ Follows t f u) ↔ CalendarAllows t f := by
  constructor
  · rintro ⟨u,hnext,hfollows⟩
    obtain ⟨hrange,rfl⟩ := nextRun_eq_some_iff.mp hnext
    exact ⟨(follows_landing_iff t f).mp hfollows,hrange⟩
  · rintro ⟨hday,hrange⟩
    exact ⟨landing t f,nextRun_eq_some_iff.mpr ⟨hrange,rfl⟩,(follows_landing_iff t f).mpr hday⟩

end Calendar

section Months
variable {c d : Cadence} {now : Instant}

/-- A schedule that has never run. -/
def Cadence.fresh (retentionDays : Nat) : Cadence := ⟨⟨.monthly,retentionDays,true,none,none⟩,[]⟩

/-- A tick that finds the schedule due comes right when it is. -/
def OnTime (c : Cadence) (now : Instant) : Prop := ∀ next ∈ c.schedule.nextRunAt, next.millis ≤ now.millis → now = next

instance (c : Cadence) (now : Instant) : Decidable (OnTime c now) :=
  inferInstanceAs (Decidable (∀ next ∈ c.schedule.nextRunAt, _))

/-- From the month of the first run to that before the next, no month is without a run. -/
def NoMonthMissed (c : Cadence) : Prop :=
  ∀ first ∈ c.runs.head?, ∃ next, c.schedule.nextRunAt = some next ∧
    ∀ m, first.monthNumber ≤ m → m < next.monthNumber → ∃ r ∈ c.runs, r.monthNumber = m

theorem Schedule.advance_eq {s : Schedule} {next : Instant} (hmonthly : s.frequency = .monthly)
    (hnext : nextRun now .monthly = some next) : s.advance now = s.fired now next := by
  rw [← hmonthly] at hnext
  rw [advance,hnext]

/-- A monthly schedule that stays as it was made. -/
structure Kept (c : Cadence) : Prop where
  monthly : c.schedule.frequency = .monthly
  enabled : c.schedule.enabled = true
  started : c.runs = [] → c.schedule.nextRunAt = none
  months : NoMonthMissed c

theorem Kept.tick (h : Kept c) (htime : OnTime c now)
    (hcalendar : isDue c.schedule now = true → CalendarAllows now .monthly) : Kept (c.tick now) := by
  unfold Cadence.tick
  split
  · rename_i hdue
    obtain ⟨next,hnext,hfollows⟩ := (follows_iff now .monthly).mpr (hcalendar hdue)
    rw [Schedule.advance_eq h.monthly hnext]
    refine ⟨h.monthly,h.enabled,fun hnil => absurd hnil (List.append_ne_nil_of_right_ne_nil _ (List.cons_ne_nil _ _)),?_⟩
    intro first hfirst
    refine ⟨next,rfl,fun m hlo hhi => ?_⟩
    rw [hfollows.cadence.1] at hhi
    by_cases hthis : m = now.monthNumber
    · exact ⟨now,List.mem_append_right _ List.mem_cons_self,hthis.symm⟩
    · -- an earlier month has its run already
      have hlt : m < now.monthNumber := by omega
      cases hruns : c.runs with
      | nil =>
        obtain rfl : now = first := by simpa [hruns] using hfirst
        omega
      | cons r rest =>
        obtain rfl : r = first := by simpa [hruns] using hfirst
        obtain ⟨due,hdue',hmonths⟩ := h.months r (by rw [hruns]; rfl)
        have hnow : now = due := by
          refine htime due hdue' ?_
          simpa [isDue,h.enabled,hdue'] using hdue
        obtain ⟨q,hq,hqm⟩ := hmonths m hlo (hnow ▸ hlt)
        exact ⟨q,List.mem_append_left _ (hruns ▸ hq),hqm⟩
  · exact h

theorem kept_fresh (retentionDays : Nat) : Kept (.fresh retentionDays) :=
  ⟨rfl,rfl,fun _ => rfl,fun _ hfirst => absurd hfirst (by simp [Cadence.fresh])⟩

/-- Ticks of `runDue`, one after the other. -/
def tickStep (c : Cadence) (now : Instant) : Option Cadence := some (c.tick now)

/-- On time, and with a day that the next month has wherever it is due. -/
def Punctual (c : Cadence) (now : Instant) : Prop :=
  OnTime c now ∧ (isDue c.schedule now = true → CalendarAllows now .monthly)

instance (c : Cadence) (now : Instant) : Decidable (Punctual c now) := inferInstanceAs (Decidable (_ ∧ _))

theorem cadence_iff (t : Instant) (f : BackupFrequency) (retentionDays : Nat) (c : Cadence) :
    ((∃ u, nextRun t f = some u ∧ Follows t f u) ↔ CalendarAllows t f) ∧
    (Run tickStep Punctual (.fresh retentionDays) c → NoMonthMissed c) := by
  refine ⟨follows_iff t f,fun hrun => ?_⟩
  have hstep (c : Cadence) (now : Instant) (d : Cadence) (h : Kept c) (ha : Punctual c now)
    (hstep : tickStep c now = some d) : Kept d := by
    obtain rfl : c.tick now = d := Option.some.inj hstep
    exact h.tick ha.1 ha.2
  have hkept : Kept c := hrun.invariant hstep (kept_fresh retentionDays)
  exact hkept.months

def jan15 : Instant := .of 2026 1 15 2 0 0 0 (by decide)

def feb15 : Instant := .of 2026 2 15 2 0 0 0 (by decide)

theorem two_months_kept : NoMonthMissed ⟨⟨.monthly,7,true,some feb15,nextRun feb15 .monthly⟩,[jan15,feb15]⟩ := by
  have hactions : runActions tickStep Punctual (.fresh 7) [jan15,feb15] =
      some ⟨⟨.monthly,7,true,some feb15,nextRun feb15 .monthly⟩,[jan15,feb15]⟩ := by decide
  exact (cadence_iff jan15 .monthly 7 _).2 (.of_actions hactions)

def jan31 : Instant := .of 2026 1 31 2 0 0 0 (by decide)

theorem february_skipped : (nextRun jan31 .monthly).map (fun u => (u.year,u.month,u.day)) = some (2026,3,3) ∧
    ¬∃ u, nextRun jan31 .monthly = some u ∧ Follows jan31 .monthly u := by
  refine ⟨by decide +kernel,fun h => absurd ((follows_iff jan31 .monthly).mp h) (by decide)⟩

end Months
end JustMail.Backups
