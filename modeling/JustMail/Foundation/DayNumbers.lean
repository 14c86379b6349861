import JustMail.Foundation.UtcDate
import Mathlib.Logic.Function.Iterate

/-! Days counted through the proleptic Gregorian calendar: the time value of an instant, and what the
setters of a JavaScript date make of a day that its month does not have. -/
namespace JustMail.Foundation

def MS_PER_DAY : Int := 86400000

/-- The days before a year, the year 0 being a leap year like 2000. -/
def daysBeforeYear (year : Int) : Int := 365*year + (year - 1)/4 - (year - 1)/100 + (year - 1)/400

def daysBeforeMonth (year : Int) : Nat → Nat
  | 0 | 1 => 0
  | month+2 => daysBeforeMonth year (month+1) + daysInMonth year (month+1)

theorem daysInMonth_ge (year : Int) (month : Nat) : 28 ≤ daysInMonth year month := by
  unfold daysInMonth
  split_ifs <;> decide

theorem daysBeforeMonth_succ (year : Int) {month : Nat} (h : 1 ≤ month) :
    daysBeforeMonth year (month+1) = daysBeforeMonth year month + daysInMonth year month := by
  cases month with
  | zero => omega
  | succ month => rfl

/-- December ends where the next year begins. -/
theorem daysBeforeYear_succ (year : Int) :
    daysBeforeYear (year+1) = daysBeforeYear year + daysBeforeMonth year 12 + daysInMonth year 12 := by
  have hmonths : daysBeforeMonth year 12 = 0 + 31 + daysInMonth year 2 + 31 + 30 + 31 + 30 + 31 + 31 + 30 + 31 + 30 := rfl
  have hdecember : daysInMonth year 12 = 31 := rfl
  rw [hmonths,hdecember,daysInMonth,if_pos rfl]
  simp only [daysBeforeYear,isLeap,Bool.and_eq_true,Bool.or_eq_true,beq_iff_eq,bne_iff_ne,ne_eq]
  split_ifs with hleap
  · omega
  · omega

namespace Instant

/-- Another date at the same time of day. -/
def onDate (t : Instant) (year : Int) (month day : Nat) (hmonth : 1 ≤ month ∧ month ≤ 12)
    (hday : 1 ≤ day ∧ day ≤ daysInMonth year month) : Instant :=
  { t with year := year, month := month, day := day, month_range := hmonth, day_range := hday }

def nextDay (t : Instant) : Instant :=
  if hday : t.day < daysInMonth t.year t.month then
    t.onDate t.year t.month (t.day+1) t.month_range ⟨by omega,by omega⟩
  else if hmonth : t.month < 12 then
    t.onDate t.year (t.month+1) 1 ⟨by omega,by omega⟩ ⟨le_rfl,Nat.le_trans (by decide) (daysInMonth_ge _ _)⟩
  else t.onDate (t.year+1) 1 1 ⟨le_rfl,by decide⟩ ⟨le_rfl,Nat.le_trans (by decide) (daysInMonth_ge _ _)⟩

def addDays (n : Nat) (t : Instant) : Instant := nextDay^[n] t

/-- The first day of a month, the months counted on from the first of the year. -/
def firstOf (t : Instant) (year : Int) (month : Nat) : Instant :=
  t.onDate (year + month/12) (month % 12 + 1) 1 ⟨by omega,by omega⟩ ⟨le_rfl,Nat.le_trans (by decide) (daysInMonth_ge _ _)⟩

/-- `date.setUTCDate(dt)`, for days from 1 on. JavaScript counts months from 0. -/
def setUTCDate (t : Instant) (dt : Nat) : Instant := addDays (dt-1) (t.firstOf t.year (t.month-1))

/-- `date.getUTCMonth()`. -/
def getUTCMonth (t : Instant) : Nat := t.month - 1

/-- `date.setUTCMonth(month)`. -/
def setUTCMonth (t : Instant) (month : Nat) : Instant := addDays (t.day-1) (t.firstOf t.year month)

def dayNumber (t : Instant) : Int := daysBeforeYear t.year + daysBeforeMonth t.year t.month + t.day

def timeOfDay (t : Instant) : Nat := ((t.hour*60 + t.minute)*60 + t.second)*1000 + t.ms

/-- `date.getTime()`. -/
def millis (t : Instant) : Int := (t.dayNumber - epoch.dayNumber)*MS_PER_DAY + t.timeOfDay

/-- Months counted through the years. -/
def monthNumber (t : Instant) : Int := t.year*12 + t.month

def daysInNextMonth (t : Instant) : Nat := daysInMonth (t.year + t.month/12) (t.month % 12 + 1)

end Instant

/-- The time values of dates: 100 million days to either side of the epoch. -/
def InTimeRange (ms : Int) : Prop := -(100000000*MS_PER_DAY) ≤ ms ∧ ms ≤ 100000000*MS_PER_DAY

instance (ms : Int) : Decidable (InTimeRange ms) := inferInstanceAs (Decidable (_ ∧ _))

/-- Beyond the range the date is invalid. -/
def timeClip (t : Instant) : Option Instant := if InTimeRange t.millis then some t else none

def weekdayName (n : Nat) : JsString :=
  (([js "Sun",js "Mon",js "Tue",js "Wed",js "Thu",js "Fri",js "Sat"] : List JsString)[n]?).getD []

def monthName (month : Nat) : JsString :=
  (([js "Jan",js "Feb",js "Mar",js "Apr",js "May",js "Jun",js "Jul",js "Aug",js "Sep",js "Oct",js "Nov",js "Dec"] :
    List JsString)[month-1]?).getD []

/-- `date.toUTCString()`; nothing stands for an invalid date. -/
def toUTCString : Option Instant → JsString
  | none => js "Invalid Date"
  | some t =>
    weekdayName ((t.dayNumber - Instant.epoch.dayNumber + 4) % 7).toNat ++ js ", " ++ padStart 2 (decimal t.day) ++ js " " ++
    monthName t.month ++ js " " ++ (if t.year < 0 then js "-" else []) ++ padStart 4 (decimal t.year.natAbs) ++ js " " ++
    isoTime t ++ js " GMT"

/-- Blanks and what prints in ASCII. -/
def Printable (s : JsString) : Prop := ∀ c ∈ s, 32 ≤ c ∧ c < 127

instance (s : JsString) : Decidable (Printable s) := decidableForallUnit (fun c => 32 ≤ c ∧ c < 127) s

theorem Printable.append {s t : JsString} (hs : Printable s) (ht : Printable t) : Printable (s ++ t) :=
  List.forall_mem_append.mpr ⟨hs,ht⟩

theorem Printable.digits {s : JsString} (h : ∀ c ∈ s, isDigit c = true) : Printable s := by
  exact fun c hc => of_isDigit (p := fun c => 32 ≤ c ∧ c < 127) (by decide) (h c hc)

theorem Printable.padStart (width n : Nat) : Printable (padStart width (decimal n)) :=
  .digits (padStart_digits (decimal_digits n))

theorem Printable.getElem? {names : List JsString} (h : ∀ s ∈ names, Printable s) (n : Nat) : Printable (names[n]?.getD []) := by
  cases hn : names[n]? with
  | none => exact fun c hc => absurd hc List.not_mem_nil
  | some s => exact h s (List.mem_of_getElem? hn)

theorem printable_toUTCString (t : Option Instant) : Printable (toUTCString t) := by
  cases t with
  | none => decide
  | some t =>
    have hsign : Printable (if t.year < 0 then js "-" else []) := by split <;> decide
    have hcomma : Printable (js ", ") := by decide
    have hcolon : Printable (js ":") := by decide
    have hblank : Printable (js " ") := by decide
    have hzone : Printable (js " GMT") := by decide
    have htime : Printable (isoTime t) :=
      ((((Printable.padStart _ _).append hcolon).append (.padStart _ _)).append hcolon).append (.padStart _ _)
    have hweekday (n : Nat) : Printable (weekdayName n) := .getElem? (by decide) n
    have hmonth : Printable (monthName t.month) := .getElem? (by decide) _
    have hdate (n : Nat) :=
      (((((hweekday n).append hcomma).append (.padStart 2 t.day)).append hblank).append hmonth).append hblank
    exact (((((hdate _).append hsign).append (.padStart _ _)).append hblank).append htime).append hzone

namespace Instant
variable {t : Instant}

@[simp] theorem dayNumber_onDate (t : Instant) (year : Int) (month day : Nat) (hmonth hday) :
    (t.onDate year month day hmonth hday).dayNumber = daysBeforeYear year + daysBeforeMonth year month + day := rfl

theorem dayNumber_nextDay (t : Instant) : t.nextDay.dayNumber = t.dayNumber + 1 := by
  obtain ⟨hmonth,hmonth'⟩ := t.month_range
  obtain ⟨hday,hday'⟩ := t.day_range
  unfold nextDay
  split
  · rw [dayNumber_onDate,dayNumber]
    omega
  · split
    · rw [dayNumber_onDate,dayNumber,daysBeforeMonth_succ _ hmonth]
      omega
    · rename_i hlast _
      have hdecember : t.month = 12 := by omega
      have hfirst : daysBeforeMonth (t.year+1) 1 = 0 := rfl
      rw [hdecember] at hday' hlast
      rw [dayNumber_onDate,dayNumber,daysBeforeYear_succ,hdecember,hfirst]
      omega

theorem timeOfDay_nextDay (t : Instant) : t.nextDay.timeOfDay = t.timeOfDay := by
  unfold nextDay
  split
  · rfl
  · split <;> rfl

theorem addDays_succ (n : Nat) (t : Instant) : addDays (n+1) t = (addDays n t).nextDay :=
  Function.iterate_succ_apply' _ _ _

theorem dayNumber_addDays (n : Nat) (t : Instant) : (addDays n t).dayNumber = t.dayNumber + n := by
  induction n with
  | zero => simp [addDays]
  | succ n ih =>
    rw [addDays_succ,dayNumber_nextDay,ih]
    omega

theorem timeOfDay_addDays (n : Nat) (t : Instant) : (addDays n t).timeOfDay = t.timeOfDay := by
  induction n with
  | zero => rfl
  | succ n ih => rw [addDays_succ,timeOfDay_nextDay,ih]

theorem addDays_within {n : Nat} (h : t.day + n ≤ daysInMonth t.year t.month) :
    (addDays n t).year = t.year ∧ (addDays n t).month = t.month ∧ (addDays n t).day = t.day + n := by
  induction n with
  | zero => exact ⟨rfl,rfl,rfl⟩
  | succ n ih =>
    obtain ⟨hyear,hmonth,hday⟩ := ih (by omega)
    rw [addDays_succ,nextDay,dif_pos (by rw [hyear,hmonth,hday]; omega)]
    exact ⟨hyear,hmonth,by simp only [onDate,hday]; omega⟩

/-- One day too many for the month is a day of the next. -/
theorem monthNumber_addDays_past {n : Nat} (h : daysInMonth t.year t.month < t.day + n)
    (hle : t.day + n ≤ daysInMonth t.year t.month + 28) : (addDays n t).monthNumber = t.monthNumber + 1 := by
  obtain ⟨k,hk⟩ : ∃ k, t.day + k = daysInMonth t.year t.month := ⟨daysInMonth t.year t.month - t.day,by have := t.day_range; omega⟩
  obtain ⟨j,rfl⟩ : ∃ j, n = j + (k + 1) := ⟨n - (k + 1),by omega⟩
  obtain ⟨hyear,hmonth,hday⟩ := addDays_within (t := t) (n := k) (by omega)
  have hturn : (addDays (k+1) t).monthNumber = t.monthNumber + 1 ∧ (addDays (k+1) t).day = 1 := by
    have := t.month_range
    rw [addDays_succ,nextDay,dif_neg (by rw [hyear,hmonth,hday]; omega)]
    split
    · rename_i hlt
      refine ⟨?_,rfl⟩
      simp only [monthNumber,onDate,hyear,hmonth]
      omega
    · rename_i hge
      refine ⟨?_,rfl⟩
      rw [hmonth] at hge
      simp only [monthNumber,onDate,hyear]
      omega
  have hrest := addDays_within (t := addDays (k+1) t) (n := j) (by
    have := daysInMonth_ge (addDays (k+1) t).year (addDays (k+1) t).month
    omega)
  have hsum : addDays (j + (k+1)) t = addDays j (addDays (k+1) t) := Function.iterate_add_apply _ _ _ _
  rw [hsum,monthNumber,hrest.1,hrest.2.1]
  exact hturn.1

theorem dayNumber_setUTCDate (n : Nat) (t : Instant) : (t.setUTCDate (t.day + n)).dayNumber = t.dayNumber + n := by
  have := t.month_range
  have hday := t.day_range.1
  have hyear : t.year + ((t.month-1 : Nat) : Int)/12 = t.year := by omega
  have hmonth : (t.month-1) % 12 + 1 = t.month := by omega
  rw [setUTCDate,dayNumber_addDays,firstOf,dayNumber_onDate,hyear,hmonth,dayNumber]
  omega

theorem timeOfDay_setUTCDate (dt : Nat) (t : Instant) : (t.setUTCDate dt).timeOfDay = t.timeOfDay := by
  rw [setUTCDate,timeOfDay_addDays]
  rfl

theorem dayNumber_firstOf_next (t : Instant) :
    (t.firstOf t.year t.month).dayNumber + t.day = t.dayNumber + daysInMonth t.year t.month + 1 := by
  obtain ⟨hmonth,hmonth'⟩ := t.month_range
  rw [firstOf,dayNumber_onDate,dayNumber]
  by_cases hlast : t.month = 12
  · have hfirst : daysBeforeMonth (t.year+1) 1 = 0 := rfl
    rw [hlast]
    simp only [Nat.mod_self,Nat.zero_add,hfirst,show t.year + ((12 : Nat) : Int)/12 = t.year+1 by omega,daysBeforeYear_succ]
    omega
  · have hyear : t.year + (t.month : Int)/12 = t.year := by omega
    have hnext : t.month % 12 + 1 = t.month + 1 := by omega
    rw [hyear,hnext,daysBeforeMonth_succ _ hmonth]
    omega

theorem dayNumber_setUTCMonth (t : Instant) :
    (t.setUTCMonth t.month).dayNumber = t.dayNumber + daysInMonth t.year t.month := by
  have := t.day_range
  have := dayNumber_firstOf_next t
  rw [setUTCMonth,dayNumber_addDays]
  omega

theorem timeOfDay_setUTCMonth (month : Nat) (t : Instant) : (t.setUTCMonth month).timeOfDay = t.timeOfDay := by
  rw [setUTCMonth,timeOfDay_addDays]
  rfl

theorem monthNumber_firstOf_next (t : Instant) : (t.firstOf t.year t.month).monthNumber = t.monthNumber + 1 := by
  have := t.month_range
  simp only [firstOf,onDate,monthNumber]
  omega

theorem setUTCMonth_within (h : t.day ≤ t.daysInNextMonth) :
    (t.setUTCMonth t.month).monthNumber = t.monthNumber + 1 ∧ (t.setUTCMonth t.month).day = t.day := by
  have := t.day_range
  have hroom : (t.firstOf t.year t.month).day + (t.day-1) ≤
      daysInMonth (t.firstOf t.year t.month).year (t.firstOf t.year t.month).month := by
    change 1 + (t.day-1) ≤ t.daysInNextMonth
    omega
  obtain ⟨hyear,hmonth,hday⟩ := addDays_within hroom
  constructor
  · rw [← monthNumber_firstOf_next,setUTCMonth,monthNumber,hyear,hmonth]
    rfl
  · rw [setUTCMonth,hday]
    change 1 + (t.day-1) = t.day
    omega

/-- A day that the next month lacks falls in the month after it. -/
theorem setUTCMonth_past (h : t.daysInNextMonth < t.day) :
    (t.setUTCMonth t.month).monthNumber = t.monthNumber + 2 := by
  have := t.day_le
  have hge : 28 ≤ t.daysInNextMonth := daysInMonth_ge _ _
  have hpast := monthNumber_addDays_past (t := t.firstOf t.year t.month) (n := t.day-1)
    (by change t.daysInNextMonth < 1 + (t.day-1); omega) (by change 1 + (t.day-1) ≤ t.daysInNextMonth + 28; omega)
  rw [setUTCMonth,hpast,monthNumber_firstOf_next]
  omega

theorem millis_of_dayNumber {u : Instant} {n : Int} (hday : u.dayNumber = t.dayNumber + n)
    (htime : u.timeOfDay = t.timeOfDay) : u.millis = t.millis + n*MS_PER_DAY := by
  rw [millis,millis,hday,htime]
  simp only [MS_PER_DAY]
  omega

end Instant
end JustMail.Foundation
