import JustMail.Foundation.Decimal

/-! The UTC view of a JavaScript date: its calendar fields, and ISO-8601 text. -/
namespace JustMail.Foundation

def isLeap (year : Int) : Bool := year % 4 == 0 && (year % 100 != 0 || year % 400 == 0)

def daysInMonth (year : Int) (month : Nat) : Nat :=
  if month = 2 then (if isLeap year then 29 else 28)
  else if month = 4 ∨ month = 6 ∨ month = 9 ∨ month = 11 then 30
  else 31

/-- An instant with its UTC calendar fields, in the proleptic Gregorian calendar. -/
structure Instant where
  year : Int
  month : Nat
  day : Nat
  hour : Nat
  minute : Nat
  second : Nat
  ms : Nat
  month_range : 1 ≤ month ∧ month ≤ 12
  day_range : 1 ≤ day ∧ day ≤ daysInMonth year month
  hour_lt : hour < 24
  minute_lt : minute < 60
  second_lt : second < 60
  ms_lt : ms < 1000
  deriving DecidableEq

def Instant.wholeSecond (t : Instant) : Instant := { t with ms := 0, ms_lt := by decide }

/-- Midnight UTC of the date. -/
def Instant.midnight (t : Instant) : Instant :=
  { t with
    hour := 0, minute := 0, second := 0, ms := 0
    hour_lt := by decide, minute_lt := by decide, second_lt := by decide, ms_lt := by decide }

/-- The instant of fields that are checked together. -/
def Instant.of (year : Int) (month day hour minute second ms : Nat)
    (h : (1 ≤ month ∧ month ≤ 12) ∧ (1 ≤ day ∧ day ≤ daysInMonth year month) ∧
      hour < 24 ∧ minute < 60 ∧ second < 60 ∧ ms < 1000) : Instant :=
  ⟨year,month,day,hour,minute,second,ms,h.1,h.2.1,h.2.2.1,h.2.2.2.1,h.2.2.2.2.1,h.2.2.2.2.2⟩

def Instant.epoch : Instant := .of 1970 1 1 0 0 0 0 (by decide)

theorem daysInMonth_le (year : Int) (month : Nat) : daysInMonth year month ≤ 31 := by
  unfold daysInMonth
  split_ifs <;> decide

theorem Instant.day_le (t : Instant) : t.day ≤ 31 := t.day_range.2.trans (daysInMonth_le _ _)

/-- Four digits for a year of the common range, a sign and six digits outside it. -/
def isoYear (year : Int) : JsString :=
  if 0 ≤ year ∧ year ≤ 9999 then padStart 4 (decimal year.natAbs)
  else (if year < 0 then js "-" else js "+") ++ padStart 6 (decimal year.natAbs)

def isoDate (t : Instant) : JsString :=
  isoYear t.year ++ js "-" ++ padStart 2 (decimal t.month) ++ js "-" ++ padStart 2 (decimal t.day)

def isoTime (t : Instant) : JsString :=
  padStart 2 (decimal t.hour) ++ js ":" ++ padStart 2 (decimal t.minute) ++ js ":" ++
  padStart 2 (decimal t.second)

/-- The form without a fraction, `YYYY-MM-DDTHH:MM:SSZ`. -/
def isoSeconds (t : Instant) : JsString := isoDate t ++ js "T" ++ isoTime t ++ js "Z"

/-- `date.toISOString()`. -/
def toISOString (t : Instant) : JsString :=
  isoDate t ++ js "T" ++ isoTime t ++ js "." ++ padStart 3 (decimal t.ms) ++ js "Z"

/-- `new Date(text)`, with nothing for an invalid date. Most formats it accepts are
implementation-defined, so only that ISO-8601 UTC text is read exactly is kept. -/
structure DateParser where
  parse : JsString → Option Instant
  parse_iso (t : Instant) : 0 ≤ t.year → t.year ≤ 9999 → parse (isoSeconds t) = some t.wholeSecond

def instant? (year month day hour minute second ms : Nat) : Option Instant :=
  if h : ((1 ≤ month ∧ month ≤ 12) ∧ (1 ≤ day ∧ day ≤ daysInMonth year month)) ∧
      (hour < 24 ∧ minute < 60 ∧ second < 60) ∧ ms < 1000 then
    some ⟨year,month,day,hour,minute,second,ms,h.1.1,h.1.2,h.2.1.1,h.2.1.2.1,h.2.1.2.2,h.2.2⟩
  else none

/-- The fraction of a second, with the zone mark that ends the text. -/
def fractionOf (tail : JsString) : Option Nat :=
  if tail = js "Z" then some 0
  else match tail with
    | [p,a,b,c,z] =>
      if p = unit '.' ∧ z = unit 'Z' ∧ [a,b,c].all isDigit then some (digitsValue [a,b,c]) else none
    | _ => none

/-- The ISO-8601 reader for four-digit years. -/
def parseIso (text : JsString) : Option Instant :=
  match text with
  | y₁ :: y₂ :: y₃ :: y₄ :: p :: m₁ :: m₂ :: q :: d₁ :: d₂ :: r :: h₁ :: h₂ :: u :: n₁ :: n₂ :: v :: s₁ :: s₂ :: tail =>
    if [p,q,r,u,v] = js "--T::" ∧ [y₁,y₂,y₃,y₄,m₁,m₂,d₁,d₂,h₁,h₂,n₁,n₂,s₁,s₂].all isDigit then
      (fractionOf tail).bind fun ms =>
        instant? (digitsValue [y₁,y₂,y₃,y₄]) (digitsValue [m₁,m₂]) (digitsValue [d₁,d₂]) (digitsValue [h₁,h₂])
          (digitsValue [n₁,n₂]) (digitsValue [s₁,s₂]) ms
    else none
  | _ => none

private theorem digitsValue_two {n : Nat} (h : n < 100) : digitsValue [digit (n / 10),digit n] = n := by
  simp only [digitsValue,List.foldl_cons,List.foldl_nil,digit_toNat]
  omega

private theorem digitsValue_four {n : Nat} (h : n < 10000) :
    digitsValue [digit (n / 1000),digit (n / 100),digit (n / 10),digit n] = n := by
  simp only [digitsValue,List.foldl_cons,List.foldl_nil,digit_toNat]
  omega

theorem parseIso_isoSeconds (t : Instant) (hlo : 0 ≤ t.year) (hhi : t.year ≤ 9999) :
    parseIso (isoSeconds t) = some t.wholeSecond := by
  have hmonth : t.month < 100 := by have := t.month_range; omega
  have hday : t.day < 100 := by have := t.day_le; omega
  have hhour : t.hour < 100 := by have := t.hour_lt; omega
  have hminute : t.minute < 100 := by have := t.minute_lt; omega
  have hsecond : t.second < 100 := by have := t.second_lt; omega
  have hyear : t.year.natAbs < 10000 := by omega
  rw [isoSeconds,isoDate,isoTime,isoYear,if_pos ⟨hlo,hhi⟩,padStart_four hyear,padStart_two hmonth,
    padStart_two hday,padStart_two hhour,padStart_two hminute,padStart_two hsecond]
  have hdigits : [digit (t.year.natAbs / 1000),digit (t.year.natAbs / 100),digit (t.year.natAbs / 10),
      digit t.year.natAbs,digit (t.month / 10),digit t.month,digit (t.day / 10),digit t.day,digit (t.hour / 10),
      digit t.hour,digit (t.minute / 10),digit t.minute,digit (t.second / 10),digit t.second].all isDigit = true := by
    simp [isDigit_digit]
  refine (if_pos ⟨rfl,hdigits⟩).trans ?_
  change instant? _ _ _ _ _ _ 0 = _
  have hcast : ((t.year.natAbs : Nat) : Int) = t.year := by omega
  rw [digitsValue_four hyear,digitsValue_two hmonth,digitsValue_two hday,digitsValue_two hhour,
    digitsValue_two hminute,digitsValue_two hsecond,instant?,dif_pos]
  · simp only [hcast]
    rfl
  · rw [hcast]
    exact ⟨⟨t.month_range,t.day_range⟩,⟨t.hour_lt,t.minute_lt,t.second_lt⟩,by decide⟩

/-- A date parser that reads ISO-8601 text and nothing else. -/
def isoParser : DateParser := ⟨parseIso,parseIso_isoSeconds⟩

end JustMail.Foundation
