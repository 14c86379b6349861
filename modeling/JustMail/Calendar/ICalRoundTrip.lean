import JustMail.Calendar.ICal

/-! What a serialized event is read back as. -/
namespace JustMail.Calendar
open Foundation Dav.ContentLine

theorem escapeText_eq (v : JsString) : escapeText v = escapeWith BACKSLASH textCode v := by
  simp only [escapeText,replaceUnit,List.flatMap_assoc]
  refine flatMap_eq_escape (by decide) (by decide) (by decide) (by decide) (fun c h1 h2 h3 h4 => ?_) v
  simp [h1,h2,h3,h4]

theorem unescapeText_escapeText (v : JsString) : unescapeText (escapeText v) = v := by
  rw [escapeText_eq]
  exact unescape_escape textCode_spec v

private theorem escapeText_unbroken {v : JsString} (hv : CR ∉ v) : Unbroken (escapeText v) := by
  rw [escapeText_eq]
  exact unbroken_escape hv

section Lines
variable (casing : CaseMapping) (dates : DateParser)

/-- A line without parameters. -/
theorem parseProperty_bare {name : JsString} (h : IsName name) (value : JsString) :
    parseProperty casing (name ++ js ":" ++ value) = some ⟨name,[],value⟩ := by
  have hcut : cut (unit ':') (name ++ unit ':' :: value) = some (name,value) := cut_append (h.notMem (by decide))
  have hsplit : name.splitOn (unit ';') = [name] := List.splitOn_eq_singleton (h.notMem (by decide))
  rw [List.append_assoc]
  change parseProperty casing (name ++ unit ':' :: value) = _
  rw [parseProperty,hcut]
  simp [hsplit,h.upper]

/-- A line with `VALUE=DATE`. -/
theorem parseProperty_date {name : JsString} (h : IsName name) (value : JsString) :
    parseProperty casing (name ++ js ";VALUE=DATE:" ++ value) =
      some ⟨name,[(js "VALUE",js "DATE")],value⟩ := by
  have hcut : cut (unit ':') (name ++ js ";VALUE=DATE" ++ unit ':' :: value) =
      some (name ++ js ";VALUE=DATE",value) := by
    apply cut_append
    rw [List.mem_append,not_or]
    exact ⟨h.notMem (by decide),by decide⟩
  have hsplit : (name ++ js ";VALUE=DATE").splitOn (unit ';') = [name,js "VALUE=DATE"] := by
    change (name ++ unit ';' :: js "VALUE=DATE").splitOn (unit ';') = _
    rw [List.splitOn_append_cons_self_of_not_mem (h.notMem (by decide)),List.splitOn_eq_singleton (by decide)]
  have hvalue : casing.toUpperCase (js "VALUE") = js "VALUE" := IsName.upper (by decide) casing
  have hseg : cut (unit '=') (js "VALUE=DATE") = some (js "VALUE",js "DATE") := by decide
  rw [List.append_assoc]
  change parseProperty casing (name ++ (js ";VALUE=DATE" ++ unit ':' :: value)) = _
  rw [← List.append_assoc,parseProperty,hcut]
  simp only [hsplit,List.headD_cons,List.tail_cons,List.foldl_cons,List.foldl_nil,addSegment,hseg,hvalue,
    h.upper]
  rfl

private theorem readLine_event {st : EventState} (hst : st.inEvent = true) {name line value : JsString}
    {params : List (JsString × JsString)}
    (hp : parseProperty casing line = some ⟨name,params,value⟩) (hne : line ≠ [])
    (hb : name ≠ js "BEGIN") (he : name ≠ js "END") :
    readLine casing dates st line = applyProperty dates st ⟨name,params,value⟩ := by
  rw [readLine,if_neg hne,hp]
  simp [hb,he,hst]

end Lines

section Dates
variable (dates : DateParser) {t : Instant}

/-- A year that prints with four digits in every form. -/
def Instant4 (t : Instant) : Prop := 1000 ≤ t.year ∧ t.year ≤ 9999

private theorem year_digits (h : Instant4 t) :
    let y := t.year.natAbs
    decimalInt t.year = [digit (y / 1000),digit (y / 100),digit (y / 10),digit y] ∧
      isoYear t.year = [digit (y / 1000),digit (y / 100),digit (y / 10),digit y] := by
  obtain ⟨hlo,hhi⟩ := h
  have hd := decimal_four (n := t.year.natAbs) (by omega) (by omega)
  constructor
  · rw [decimalInt,if_neg (by omega),hd]
  · rw [isoYear,if_pos (by omega),hd]
    rfl

private theorem month_digits (t : Instant) :
    padStart 2 (decimal t.month) = [digit (t.month / 10),digit t.month] :=
  padStart_two (by have := t.month_range; omega)

private theorem day_digits (t : Instant) : padStart 2 (decimal t.day) = [digit (t.day / 10),digit t.day] :=
  padStart_two (by have := t.day_le; omega)

private theorem hour_digits (t : Instant) : padStart 2 (decimal t.hour) = [digit (t.hour / 10),digit t.hour] :=
  padStart_two (by have := t.hour_lt; omega)

private theorem minute_digits (t : Instant) :
    padStart 2 (decimal t.minute) = [digit (t.minute / 10),digit t.minute] :=
  padStart_two (by have := t.minute_lt; omega)

private theorem second_digits (t : Instant) :
    padStart 2 (decimal t.second) = [digit (t.second / 10),digit t.second] :=
  padStart_two (by have := t.second_lt; omega)

private def dateDigits (t : Instant) : JsString :=
  [digit (t.year.natAbs / 1000),digit (t.year.natAbs / 100),digit (t.year.natAbs / 10),digit t.year.natAbs,
    digit (t.month / 10),digit t.month,digit (t.day / 10),digit t.day]

private def timeDigits (t : Instant) : JsString :=
  [digit (t.hour / 10),digit t.hour,digit (t.minute / 10),digit t.minute,digit (t.second / 10),digit t.second]

variable {dates} {iso : JsString}

private theorem formatDate_digits (hp : dates.parse iso = some t) (h : Instant4 t) :
    formatDate dates iso = dateDigits t := by
  simp only [formatDate,hp,Option.map_some,Option.getD_some,padField,(year_digits h).1,month_digits,day_digits]
  rfl

private theorem formatDateTime_digits (hp : dates.parse iso = some t) (h : Instant4 t) :
    formatDateTime dates iso = dateDigits t ++ js "T" ++ timeDigits t ++ js "Z" := by
  simp only [formatDateTime,formatDate_digits hp h,hp,Option.map_some,padField,hour_digits,minute_digits,
    second_digits]
  simp [timeDigits]

private theorem isoOf_seconds (h : Instant4 t) : isoOf dates (isoSeconds t) = .ok (toISOString t.wholeSecond) := by
  obtain ⟨hlo,hhi⟩ := h
  rw [isoOf,dates.parse_iso t (by omega) hhi]

private theorem digit_not_space (n : Nat) : isSpace (digit n) = false := by
  have h := isDigit_digit n
  simp only [isDigit,Bool.and_eq_true,decide_eq_true_eq] at h
  apply isSpace_of_graphic <;> grind

private theorem trim_dateDigits (t : Instant) : trim (dateDigits t) = dateDigits t := by
  apply trim_eq_self_of_forall
  simp [dateDigits,digit_not_space]

theorem parseDate_allDay (hp : dates.parse iso = some t) (h : Instant4 t) (name : JsString) :
    parseDate dates ⟨name,[(js "VALUE",js "DATE")],formatDate dates iso⟩ =
      .ok (toISOString t.midnight,true) := by
  have hy := (year_digits h).2
  have htext : (dateDigits t).take 4 ++ js "-" ++ ((dateDigits t).drop 4).take 2 ++ js "-" ++
      ((dateDigits t).drop 6).take 2 ++ js "T00:00:00Z" = isoSeconds t.midnight := by
    have htime : isoTime t.midnight = js "00:00:00" := by
      change padStart 2 (decimal 0) ++ js ":" ++ padStart 2 (decimal 0) ++ js ":" ++ padStart 2 (decimal 0) = _
      decide
    have hdate : isoDate t.midnight = isoDate t := rfl
    rw [isoSeconds,htime,hdate,isoDate,hy,month_digits,day_digits]
    rfl
  rw [parseDate]
  simp only [formatDate_digits hp h,trim_dateDigits,htext,isoOf_seconds (t := t.midnight) h]
  rfl

theorem parseDate_timed (hp : dates.parse iso = some t) (h : Instant4 t) (name : JsString) :
    parseDate dates ⟨name,[],formatDateTime dates iso⟩ = .ok (toISOString t.wholeSecond,false) := by
  have htrim : trim (dateDigits t ++ js "T" ++ timeDigits t ++ js "Z") =
      dateDigits t ++ js "T" ++ timeDigits t ++ js "Z" := by
    apply trim_eq_self_of_forall
    have hT : ∀ c ∈ js "T", isSpace c = false := by decide
    have hZ : ∀ c ∈ js "Z", isSpace c = false := by decide
    intro c hc
    simp only [List.mem_append] at hc
    rcases hc with ((hc | hc) | hc) | hc
    · simp only [dateDigits,List.mem_cons,List.not_mem_nil,or_false] at hc
      rcases hc with rfl | rfl | rfl | rfl | rfl | rfl | rfl | rfl <;> exact digit_not_space _
    · exact hT c hc
    · simp only [timeDigits,List.mem_cons,List.not_mem_nil,or_false] at hc
      rcases hc with rfl | rfl | rfl | rfl | rfl | rfl <;> exact digit_not_space _
    · exact hZ c hc
  have hdate : isDateText (dateDigits t ++ js "T" ++ timeDigits t ++ js "Z") = false := rfl
  have hmatch : matchDateTime (dateDigits t ++ js "T" ++ timeDigits t ++ js "Z") =
      some [(dateDigits t).take 4,((dateDigits t).drop 4).take 2,(dateDigits t).drop 6,
        (timeDigits t).take 2,((timeDigits t).drop 2).take 2,(timeDigits t).drop 4] := by
    have hd : (dateDigits t).all isDigit = true := by simp [dateDigits,isDigit_digit]
    have ht : (timeDigits t).all isDigit = true := by simp [timeDigits,isDigit_digit]
    exact if_pos ⟨rfl,hd,rfl,rfl,ht,Or.inr rfl⟩
  have hiso : (dateDigits t).take 4 ++ js "-" ++ ((dateDigits t).drop 4).take 2 ++ js "-" ++
      (dateDigits t).drop 6 ++ js "T" ++ (timeDigits t).take 2 ++ js ":" ++ ((timeDigits t).drop 2).take 2 ++
      js ":" ++ (timeDigits t).drop 4 ++ js "Z" = isoSeconds t := by
    rw [isoSeconds,isoDate,isoTime,(year_digits h).2,month_digits,day_digits,hour_digits,minute_digits,second_digits]
    rfl
  rw [parseDate]
  simp only [formatDateTime_digits hp h,htrim,hdate,hmatch,hiso,isoOf_seconds h]
  rfl

end Dates

section Event
variable (casing : CaseMapping) (dates : DateParser)

/-- Reading `lines` takes the loop from one state to another without a throw. -/
private def Reads (lines : List JsString) (st st' : EventState) : Prop :=
  lines.foldlM (readLine casing dates) st = .ok st'

variable {casing dates} {st st₁ st₂ : EventState}

private theorem Reads.nil : Reads casing dates [] st st := rfl

private theorem Reads.cons {line : JsString} {lines : List JsString} (h : readLine casing dates st line = .ok st₁)
    (hs : Reads casing dates lines st₁ st₂) : Reads casing dates (line :: lines) st st₂ := by
  rw [Reads,List.foldlM_cons,h]
  exact hs

private theorem Reads.append {lines more : List JsString} (h : Reads casing dates lines st st₁)
    (hs : Reads casing dates more st₁ st₂) : Reads casing dates (lines ++ more) st st₂ := by
  rw [Reads,List.foldlM_append,h]
  exact hs

private theorem line_ne_nil {name : JsString} (h : IsName name) (s t : JsString) : name ++ s ++ t ≠ [] := by
  simp [h.1]

/-- The name of a property that neither opens nor closes a component. -/
private def IsField (name : JsString) : Prop := IsName name ∧ name ≠ js "BEGIN" ∧ name ≠ js "END"

private instance (name : JsString) : Decidable (IsField name) := inferInstanceAs (Decidable (_ ∧ _))

private theorem readLine_outside (name : JsString) (hst : st.inEvent = false) (h : IsName name) (value : JsString)
    (hv : casing.toUpperCase value ≠ js "VEVENT" ∨ (name ≠ js "BEGIN" ∧ name ≠ js "END")) :
    readLine casing dates st (name ++ js ":" ++ value) = .ok st := by
  rw [readLine,if_neg (line_ne_nil h _ _),parseProperty_bare casing h]
  rcases hv with hv | ⟨hb,he⟩
  · simp [hv,hst]
  · simp [hb,he,hst]

private theorem readLine_mark (st : EventState) :
    readLine casing dates st (js "BEGIN" ++ js ":" ++ js "VEVENT") = .ok { st with inEvent := true } ∧
    readLine casing dates st (js "END" ++ js ":" ++ js "VEVENT") = .ok { st with inEvent := false } := by
  have hu : casing.toUpperCase (js "VEVENT") = js "VEVENT" := IsName.upper (by decide) casing
  constructor
  · rw [readLine,if_neg (by decide),parseProperty_bare casing (by decide)]
    simp [hu]
  · rw [readLine,if_neg (by decide),parseProperty_bare casing (by decide)]
    simp +decide [hu]

/-- A property of the event without parameters. -/
private theorem readLine_property (name : JsString) (hst : st.inEvent = true) (h : IsField name) (value : JsString) :
    readLine casing dates st (name ++ js ":" ++ value) = applyProperty dates st ⟨name,[],value⟩ :=
  readLine_event casing dates hst (parseProperty_bare casing h.1 value) (line_ne_nil h.1 _ _) h.2.1 h.2.2

private theorem reads_optional (hst : st.inEvent = true) {name : JsString} (h : IsField name)
    (update : EventState → Option JsString → EventState)
    (hup : ∀ v, applyProperty dates st ⟨name,[],v⟩ = .ok (update st (orNull (unescapeText v))))
    (hnone : update st none = st) (text : Option JsString) :
    Reads casing dates (optionalLine name text) st (update st (text.bind orNull)) := by
  cases text with
  | none =>
    rw [Option.bind_none,hnone]
    exact .nil
  | some v =>
    by_cases hv : v = []
    · subst hv
      rw [Option.bind_some,orNull,if_pos rfl,hnone]
      exact .nil
    · rw [optionalLine,if_neg hv]
      refine .cons ?_ .nil
      rw [readLine_property name hst h,hup,unescapeText_escapeText]
      rfl

end Event

section Text
variable (dates : DateParser)

private theorem unbroken_digits {s : JsString} (h : ∀ c ∈ s, isDigit c = true) : Unbroken s :=
  ⟨fun hc => absurd (h _ hc) (by decide),fun hc => absurd (h _ hc) (by decide)⟩

private theorem unbroken_padField (n : Option Nat) : Unbroken (padField n) := by
  cases n with
  | none => decide
  | some n => exact unbroken_digits (padStart_digits (decimal_digits n))

private theorem unbroken_decimalInt (n : Int) : Unbroken (decimalInt n) := by
  have hd : Unbroken (decimal n.natAbs) := unbroken_digits (decimal_digits _)
  unfold decimalInt
  split
  · exact .append (by decide) hd
  · exact hd

private theorem unbroken_formatDate (iso : JsString) : Unbroken (formatDate dates iso) := by
  refine .append (.append ?_ (unbroken_padField _)) (unbroken_padField _)
  cases dates.parse iso with
  | none => decide
  | some t => exact unbroken_decimalInt t.year

private theorem unbroken_formatDateTime (iso : JsString) : Unbroken (formatDateTime dates iso) := by
  refine .append (.append (.append (.append (.append (unbroken_formatDate dates iso) ?_) ?_) ?_) ?_) ?_
  · decide
  · exact unbroken_padField _
  · exact unbroken_padField _
  · exact unbroken_padField _
  · decide

private theorem sound_optional {name : JsString} (h : IsName name) {text : Option JsString}
    (ht : ∀ v ∈ text, CR ∉ v) : ∀ line ∈ optionalLine name text, Sound line := by
  intro line hl
  cases text with
  | none => simp [optionalLine] at hl
  | some v =>
    by_cases hv : v = []
    · simp [optionalLine,hv] at hl
    · obtain rfl : line = name ++ js ":" ++ escapeText v := by simpa [optionalLine,hv] using hl
      exact sound_line name h (by decide) (escapeText_unbroken (ht v rfl))

private theorem sound_dateLines (event : ICalEvent) : ∀ line ∈ dateLines dates event, Sound line := by
  have hcolon : Unbroken (js ":") := by decide
  have hdate : Unbroken (js ";VALUE=DATE:") := by decide
  intro line hl
  unfold dateLines at hl
  split at hl
  · rw [List.mem_pair] at hl
    rcases hl with rfl | rfl
    · exact sound_line (js "DTSTART") (by decide) hdate (unbroken_formatDate dates _)
    · exact sound_line (js "DTEND") (by decide) hdate (unbroken_formatDate dates _)
  · rw [List.mem_pair] at hl
    rcases hl with rfl | rfl
    · exact sound_line (js "DTSTART") (by decide) hcolon (unbroken_formatDateTime dates _)
    · exact sound_line (js "DTEND") (by decide) hcolon (unbroken_formatDateTime dates _)

/-- The four text fields hold no carriage return. -/
structure ICalEvent.FreeOfCr (event : ICalEvent) : Prop where
  uid : CR ∉ event.uid
  summary : CR ∉ event.summary
  location : ∀ v ∈ event.location, CR ∉ v
  description : ∀ v ∈ event.description, CR ∉ v

private theorem sound_eventLines (now : Instant) {event : ICalEvent} (h : event.FreeOfCr) :
    ∀ line ∈ eventLines dates now event, Sound line := by
  have hcolon : Unbroken (js ":") := by decide
  intro line hl
  simp only [eventLines,List.mem_append] at hl
  rcases hl with ((((hl | hl) | hl) | hl) | hl) | hl
  · simp only [List.mem_cons,List.not_mem_nil,or_false] at hl
    rcases hl with rfl | rfl | rfl | rfl | rfl | rfl | rfl
    · decide
    · decide
    · decide
    · decide
    · decide
    · exact sound_line (js "UID") (by decide) hcolon (escapeText_unbroken h.uid)
    · exact sound_line (js "DTSTAMP") (by decide) hcolon (unbroken_formatDateTime dates _)
  · exact sound_dateLines dates event line hl
  · obtain rfl := List.mem_singleton.mp hl
    exact sound_line (js "SUMMARY") (by decide) hcolon (escapeText_unbroken h.summary)
  · exact sound_optional (by decide) h.location line hl
  · exact sound_optional (by decide) h.description line hl
  · rw [List.mem_pair] at hl
    rcases hl with rfl | rfl <;> decide

end Text

section RoundTrip
variable {casing : CaseMapping} {dates : DateParser} {st : EventState}

def kept (allDay : Bool) (t : Instant) : Instant := if allDay then t.midnight else t.wholeSecond

private theorem readLine_dateLine (hst : st.inEvent = true) {name : JsString} (h : IsField name)
    (update : JsString × Bool → EventState)
    (hup : ∀ params value, applyProperty dates st ⟨name,params,value⟩ =
      (parseDate dates ⟨name,params,value⟩).map update)
    {iso : JsString} {t : Instant} (hp : dates.parse iso = some t) (ht : Instant4 t) (allDay : Bool) :
    readLine casing dates st
      (if allDay then name ++ js ";VALUE=DATE:" ++ formatDate dates iso
        else name ++ js ":" ++ formatDateTime dates iso) =
      .ok (update (toISOString (kept allDay t),allDay)) := by
  cases allDay with
  | true =>
    rw [if_pos rfl,readLine_event casing dates hst (parseProperty_date casing h.1 _) (line_ne_nil h.1 _ _) h.2.1 h.2.2,
      hup,parseDate_allDay hp ht]
    rfl
  | false =>
    rw [if_neg (by decide),readLine_property name hst h,hup,parseDate_timed hp ht]
    rfl

private theorem applyProperty_start (st : EventState) (params : List (JsString × JsString)) (value : JsString) :
    applyProperty dates st ⟨js "DTSTART",params,value⟩ = (parseDate dates ⟨js "DTSTART",params,value⟩).map
      fun p => { st with startIso := p.1, allDay := st.allDay || p.2 } := by
  cases h : parseDate dates ⟨js "DTSTART",params,value⟩ <;> simp +decide [applyProperty,h] <;> rfl

private theorem applyProperty_end (st : EventState) (params : List (JsString × JsString)) (value : JsString) :
    applyProperty dates st ⟨js "DTEND",params,value⟩ = (parseDate dates ⟨js "DTEND",params,value⟩).map
      fun p => { st with endIso := p.1, allDay := st.allDay || p.2 } := by
  cases h : parseDate dates ⟨js "DTEND",params,value⟩ <;> simp +decide [applyProperty,h] <;> rfl

/-- The state after the two date lines. -/
private def afterDates (st : EventState) (allDay : Bool) (s t : Instant) : EventState :=
  { st with
    startIso := toISOString (kept allDay s)
    endIso := toISOString (kept allDay t)
    allDay := st.allDay || allDay }

private theorem reads_dateLines (hst : st.inEvent = true) {event : ICalEvent} {s t : Instant}
    (hs : dates.parse event.startsAt = some s) (ht : dates.parse event.endsAt = some t) (hs4 : Instant4 s)
    (ht4 : Instant4 t) :
    Reads casing dates (dateLines dates event) st (afterDates st event.allDay s t) := by
  have hlines : dateLines dates event =
      [if event.allDay then js "DTSTART" ++ js ";VALUE=DATE:" ++ formatDate dates event.startsAt
          else js "DTSTART" ++ js ":" ++ formatDateTime dates event.startsAt,
        if event.allDay then js "DTEND" ++ js ";VALUE=DATE:" ++ formatDate dates event.endsAt
          else js "DTEND" ++ js ":" ++ formatDateTime dates event.endsAt] := by
    unfold dateLines
    split <;> rfl
  rw [hlines]
  refine .cons (readLine_dateLine hst (by decide) _ (applyProperty_start _) hs hs4 _) ?_
  refine .cons (readLine_dateLine ?_ (by decide) _ (applyProperty_end _) ht ht4 _) ?_
  · exact hst
  · simp [Reads,afterDates,pure,Except.pure]

private theorem reads_prefix (now : Instant) {event : ICalEvent} (htrim : trim event.uid = event.uid) :
    Reads casing dates
      [js "BEGIN:VCALENDAR",js "VERSION:2.0",js "PRODID:" ++ PRODID,js "CALSCALE:GREGORIAN",js "BEGIN:VEVENT",
        js "UID:" ++ escapeText event.uid,js "DTSTAMP:" ++ formatDateTime dates (toISOString now)] .initial
      { EventState.initial with inEvent := true, uid := event.uid } := by
  have hcal : casing.toUpperCase (js "VCALENDAR") ≠ js "VEVENT" := by
    rw [IsName.upper (by decide) casing]
    decide
  refine .cons (readLine_outside (js "BEGIN") rfl (by decide) (js "VCALENDAR") (.inl hcal)) ?_
  refine .cons (readLine_outside (js "VERSION") rfl (by decide) (js "2.0") (.inr (by decide))) ?_
  refine .cons (readLine_outside (js "PRODID") rfl (by decide) PRODID (.inr (by decide))) ?_
  refine .cons (readLine_outside (js "CALSCALE") rfl (by decide) (js "GREGORIAN") (.inr (by decide))) ?_
  refine .cons (readLine_mark _).1 ?_
  refine .cons ((readLine_property (js "UID") rfl (by decide) _).trans rfl) ?_
  rw [unescapeText_escapeText,htrim]
  refine .cons ((readLine_property (js "DTSTAMP") rfl (by decide) _).trans rfl) ?_
  exact .nil

private theorem reads_summary (hst : st.inEvent = true) (v : JsString) :
    Reads casing dates [js "SUMMARY:" ++ escapeText v] st { st with summary := v } := by
  refine .cons ((readLine_property (js "SUMMARY") hst (by decide) _).trans rfl) ?_
  rw [unescapeText_escapeText]
  exact .nil

private theorem reads_location (hst : st.inEvent = true) (hnone : st.location = none)
    (v : Option JsString) :
    Reads casing dates (optionalLine (js "LOCATION") v) st { st with location := v.bind orNull } :=
  reads_optional hst (by decide) (fun st v => { st with location := v })
    (fun _ => rfl) (by rw [← hnone]) v

private theorem reads_description (hst : st.inEvent = true) (hnone : st.description = none)
    (v : Option JsString) :
    Reads casing dates (optionalLine (js "DESCRIPTION") v) st { st with description := v.bind orNull } :=
  reads_optional hst (by decide) (fun st v => { st with description := v })
    (fun _ => rfl) (by rw [← hnone]) v

private theorem reads_suffix (st : EventState) :
    Reads casing dates ([js "END:VEVENT",js "END:VCALENDAR"] ++ [[]]) st { st with inEvent := false } := by
  have hcal : casing.toUpperCase (js "VCALENDAR") ≠ js "VEVENT" := by
    rw [IsName.upper (by decide) casing]
    decide
  refine .cons (readLine_mark st).2 ?_
  refine .cons (readLine_outside (js "END") rfl (by decide) (js "VCALENDAR") (.inl hcal)) ?_
  exact .cons rfl .nil

/-- An event without carriage returns, with a trimmed uid and dates that print with
four-digit years, is read back as it was, up to what the format keeps of its dates. -/
theorem parseICal_serializeICal (now : Instant) {event : ICalEvent} (htext : event.FreeOfCr)
    (huid : event.uid ≠ []) (htrim : trim event.uid = event.uid) {s t : Instant}
    (hs : dates.parse event.startsAt = some s) (ht : dates.parse event.endsAt = some t)
    (hs4 : Instant4 s) (ht4 : Instant4 t) :
    parseICal casing dates (serializeICal dates now event) = .ok (some
      { uid := event.uid
        summary := event.summary
        startsAt := toISOString (kept event.allDay s)
        endsAt := toISOString (kept event.allDay t)
        allDay := event.allDay
        location := event.location.bind orNull
        description := event.description.bind orNull }) := by
  have hlines : unfoldLines (serializeICal dates now event) = eventLines dates now event ++ [[]] :=
    unfoldLines_joinFolded (by simp [eventLines]) (sound_eventLines dates now htext)
  have hreads : Reads casing dates (eventLines dates now event ++ [[]]) .initial
      { inEvent := false
        uid := event.uid
        summary := event.summary
        location := event.location.bind orNull
        description := event.description.bind orNull
        startIso := toISOString (kept event.allDay s)
        endIso := toISOString (kept event.allDay t)
        allDay := event.allDay } := by
    have h0 : Reads casing dates _ _ _ := reads_prefix now htrim
    have h1 := h0.append (reads_dateLines rfl hs ht hs4 ht4)
    have h2 := h1.append (reads_summary rfl event.summary)
    have h3 := h2.append (reads_location rfl rfl event.location)
    have h4 := h3.append (reads_description rfl rfl event.description)
    have h5 := h4.append (reads_suffix _)
    rw [eventLines,List.append_assoc _ [js "END:VEVENT",js "END:VCALENDAR"]]
    exact h5
  have hne : ∀ u : Instant, toISOString u ≠ [] := fun u => by simp [toISOString,js,utf16]
  rw [parseICal,hlines,hreads]
  simp [huid,hne,bind,Except.bind,pure,Except.pure]

/-- An all-day event with text that looks like iCalendar itself. -/
def offsite : ICalEvent where
  uid := js "7f1c"
  summary := js "Offsite; BEGIN:VEVENT\nEND:VEVENT"
  startsAt := js "2026-05-09T08:30:15.250Z"
  endsAt := js "2026-05-10T00:00:00Z"
  allDay := true
  location := some (js "Hall 2, \\n")
  description := some []

/-- The instants its dates name. -/
def offsiteStart : Instant :=
  ⟨2026,5,9,8,30,15,250,by decide,by decide,by decide,by decide,by decide,by decide⟩
def offsiteEnd : Instant := Instant.midnight { offsiteStart with day := 10, day_range := by decide }

theorem parseICal_serializeICal_offsite :
    parseICal asciiCase isoParser (serializeICal isoParser .epoch offsite) = .ok (some
      { offsite with
        startsAt := js "2026-05-09T00:00:00.000Z", endsAt := js "2026-05-10T00:00:00.000Z", description := none }) := by
  have hs : isoParser.parse offsite.startsAt = some offsiteStart := by decide +kernel
  have ht : isoParser.parse offsite.endsAt = some offsiteEnd := by decide +kernel
  have hstart : toISOString (kept offsite.allDay offsiteStart) = js "2026-05-09T00:00:00.000Z" := by decide +kernel
  have hend : toISOString (kept offsite.allDay offsiteEnd) = js "2026-05-10T00:00:00.000Z" := by decide +kernel
  have h := @parseICal_serializeICal asciiCase isoParser .epoch offsite ⟨by decide,by decide,by decide,by decide⟩
    (by decide) (by decide) _ _ hs ht ⟨by decide,by decide⟩ ⟨by decide,by decide⟩
  rw [hstart,hend] at h
  exact h

end RoundTrip

end JustMail.Calendar
