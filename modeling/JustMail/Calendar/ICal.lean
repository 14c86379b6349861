import JustMail.Dav.ContentLine
import JustMail.Foundation.UtcDate

/-! `calendar/ical.ts`: one VEVENT as text. Reading may throw, since an invalid
date has no ISO form. -/
namespace JustMail.Calendar
open Foundation Dav.ContentLine

inductive JsError where
  | rangeError (message : String)
  deriving DecidableEq

structure ICalEvent where
  uid : JsString
  summary : JsString
  startsAt : JsString
  endsAt : JsString
  allDay : Bool
  location : Option JsString
  description : Option JsString
  deriving DecidableEq

def PRODID : JsString := js "-//JustMail//Calendar//EN"

/-- One logical line; a repeated parameter keeps its last value. -/
structure RawProperty where
  name : JsString
  params : List (JsString × JsString)
  value : JsString

def unfoldLines (text : JsString) : List JsString := Dav.ContentLine.unfoldLines text
def foldLine (line : JsString) : JsString := Dav.ContentLine.foldLine line
def unescapeText (v : JsString) : JsString := Dav.ContentLine.unescapeText v

def escapeText (v : JsString) : JsString :=
  replaceUnit (unit ',') (js "\\,") (replaceUnit (unit ';') (js "\\;")
    (replaceUnit LF (js "\\n") (replaceUnit BACKSLASH (js "\\\\") v)))

section Reading
variable (casing : CaseMapping) (dates : DateParser)

/-- One round of the parameter loop; a segment without `=` is skipped. New entries
go first, so a lookup finds the last one set. -/
def addSegment (params : List (JsString × JsString)) (seg : JsString) : List (JsString × JsString) :=
  match cut (unit '=') seg with
  | none => params
  | some (key,value) => (casing.toUpperCase key,removeUnits (· == unit '"') value) :: params

def parseProperty (line : JsString) : Option RawProperty :=
  match cut (unit ':') line with
  | none => none
  | some (head,value) =>
    let segments := head.splitOn (unit ';')
    some
      { name := casing.toUpperCase (segments.headD [])
        params := segments.tail.foldl (addSegment casing) []
        value }

/-- `new Date(text).toISOString()`. -/
def isoOf (text : JsString) : Except JsError JsString :=
  match dates.parse text with
  | none => .error (.rangeError "Invalid time value")
  | some t => .ok (toISOString t)

/-- `/^\d{8}$/.test(v)`. -/
def isDateText (v : JsString) : Bool := v.length == 8 && v.all isDigit

/-- The groups of `/^(\d{4})(\d{2})(\d{2})T(\d{2})(\d{2})(\d{2})(Z)?$/`. -/
def matchDateTime (v : JsString) : Option (List JsString) :=
  let date := v.take 8
  let time := (v.drop 9).take 6
  let tail := v.drop 15
  if date.length = 8 ∧ date.all isDigit ∧ v[8]? = some (unit 'T') ∧ time.length = 6 ∧ time.all isDigit ∧
      (tail = [] ∨ tail = js "Z") then
    some [date.take 4,(date.drop 4).take 2,date.drop 6,time.take 2,(time.drop 2).take 2,time.drop 4]
  else none

/-- A DATE or DATE-TIME value as an ISO instant, and whether it was a date. Other
text goes through the general date parser, with the epoch for what it refuses. -/
def parseDate (prop : RawProperty) : Except JsError (JsString × Bool) :=
  let v := trim prop.value
  if prop.params.lookup (js "VALUE") = some (js "DATE") ∨ isDateText v then do
    let iso ← isoOf dates (v.take 4 ++ js "-" ++ (v.drop 4).take 2 ++ js "-" ++ (v.drop 6).take 2 ++
      js "T00:00:00Z")
    pure (iso,true)
  else match matchDateTime v with
    | some [y,mo,d,h,mi,s] => do
        let iso ← isoOf dates (y ++ js "-" ++ mo ++ js "-" ++ d ++ js "T" ++ h ++ js ":" ++ mi ++ js ":" ++ s ++
          js "Z")
        pure (iso,false)
    | _ => .ok (toISOString ((dates.parse v).getD .epoch),false)

/-- The mutable variables of the parsing loop. -/
structure EventState where
  inEvent : Bool
  uid : JsString
  summary : JsString
  location : Option JsString
  description : Option JsString
  startIso : JsString
  endIso : JsString
  allDay : Bool

def EventState.initial : EventState := ⟨false,[],[],none,none,[],[],false⟩

/-- `s.length > 0 ? s : null`. -/
def orNull (s : JsString) : Option JsString := if s = [] then none else some s

/-- The switch over the property name, inside a VEVENT. -/
def applyProperty (st : EventState) (prop : RawProperty) : Except JsError EventState :=
  if prop.name = js "UID" then .ok { st with uid := trim (unescapeText prop.value) }
  else if prop.name = js "SUMMARY" then .ok { st with summary := unescapeText prop.value }
  else if prop.name = js "LOCATION" then .ok { st with location := orNull (unescapeText prop.value) }
  else if prop.name = js "DESCRIPTION" then .ok { st with description := orNull (unescapeText prop.value) }
  else if prop.name = js "DTSTART" then do
    let p ← parseDate dates prop
    pure { st with startIso := p.1, allDay := st.allDay || p.2 }
  else if prop.name = js "DTEND" then do
    let p ← parseDate dates prop
    pure { st with endIso := p.1, allDay := st.allDay || p.2 }
  else .ok st

def readLine (st : EventState) (line : JsString) : Except JsError EventState :=
  if line = [] then .ok st
  else match parseProperty casing line with
    | none => .ok st
    | some prop =>
      if prop.name = js "BEGIN" ∧ casing.toUpperCase prop.value = js "VEVENT" then
        .ok { st with inEvent := true }
      else if prop.name = js "END" ∧ casing.toUpperCase prop.value = js "VEVENT" then
        .ok { st with inEvent := false }
      else if st.inEvent then applyProperty dates st prop
      else .ok st

def parseICal (text : JsString) : Except JsError (Option ICalEvent) := do
  let st ← (unfoldLines text).foldlM (readLine casing dates) .initial
  if st.uid = [] ∨ st.startIso = [] then pure none
  else pure (some
    { uid := st.uid
      summary := st.summary
      startsAt := st.startIso
      endsAt := if st.endIso = [] then st.startIso else st.endIso
      allDay := st.allDay
      location := st.location
      description := st.description })

/-- `pad(n)` for a field that may not exist on an invalid date. -/
def padField (n : Option Nat) : JsString :=
  match n with
  | none => js "NaN"
  | some n => padStart 2 (decimal n)

def formatDate (iso : JsString) : JsString :=
  let d := dates.parse iso
  ((d.map fun t => decimalInt t.year).getD (js "NaN")) ++ padField (d.map (·.month)) ++ padField (d.map (·.day))

def formatDateTime (iso : JsString) : JsString :=
  let d := dates.parse iso
  formatDate dates iso ++ js "T" ++ padField (d.map (·.hour)) ++ padField (d.map (·.minute)) ++
    padField (d.map (·.second)) ++ js "Z"

/-- The two date lines, in the form the event's kind asks for. -/
def dateLines (event : ICalEvent) : List JsString :=
  if event.allDay then
    [js "DTSTART;VALUE=DATE:" ++ formatDate dates event.startsAt,
      js "DTEND;VALUE=DATE:" ++ formatDate dates event.endsAt]
  else
    [js "DTSTART:" ++ formatDateTime dates event.startsAt,js "DTEND:" ++ formatDateTime dates event.endsAt]

/-- A property that is written only when its value is a non-empty string. -/
def optionalLine (name : JsString) : Option JsString → List JsString
  | none => []
  | some v => if v = [] then [] else [name ++ js ":" ++ escapeText v]

/-- The property lines in order, before folding; `now` is the clock. -/
def eventLines (now : Instant) (event : ICalEvent) : List JsString :=
  [js "BEGIN:VCALENDAR",js "VERSION:2.0",js "PRODID:" ++ PRODID,js "CALSCALE:GREGORIAN",js "BEGIN:VEVENT",
    js "UID:" ++ escapeText event.uid,js "DTSTAMP:" ++ formatDateTime dates (toISOString now)] ++
  dateLines dates event ++ [js "SUMMARY:" ++ escapeText event.summary] ++
  optionalLine (js "LOCATION") event.location ++ optionalLine (js "DESCRIPTION") event.description ++
  [js "END:VEVENT",js "END:VCALENDAR"]

def serializeICal (now : Instant) (event : ICalEvent) : JsString :=
  CRLF.intercalate ((eventLines dates now event).map foldLine) ++ CRLF

end Reading
end JustMail.Calendar
