import JustMail.Calendar.ICalDates

/-! Calendars as trees of components, and what the components inside of the event and beside it do to the event that
`parseICal` reads. -/
namespace JustMail.Calendar
open Foundation Dav.ContentLine

section Trees

/-- The lines and the components of a component, in order. -/
inductive Content where
  | nil
  | property (line : JsString) (rest : Content)
  | component (opening : JsString) (body : Content) (closing : JsString) (rest : Content)

def Content.lines : Content → List JsString
  | .nil => []
  | .property line rest => line :: rest.lines
  | .component opening body closing rest => opening :: (body.lines ++ closing :: rest.lines)

/-- The property lines, those of nested components among them. -/
def Content.allProperties : Content → List JsString
  | .nil => []
  | .property line rest => line :: rest.allProperties
  | .component _ body _ rest => body.allProperties ++ rest.allProperties

/-- What is left without the nested components. -/
def Content.strip : Content → Content
  | .nil => .nil
  | .property line rest => .property line rest.strip
  | .component _ _ _ rest => rest.strip

/-- VCALENDAR with one VEVENT between other things. -/
structure ICalendar where
  opening : JsString
  before : Content
  beginEvent : JsString
  event : Content
  endEvent : JsString
  after : Content
  closing : JsString

def ICalendar.lines (c : ICalendar) : List JsString :=
  c.opening :: (c.before.lines ++ c.beginEvent :: (c.event.lines ++ c.endEvent :: (c.after.lines ++ [c.closing])))

def ICalendar.strip (c : ICalendar) : ICalendar := { c with before := c.before.strip, event := c.event.strip, after := c.after.strip }

variable (casing : CaseMapping)

/-- The line begins or ends a component of the name. -/
def Marks (keyword name line : JsString) : Prop :=
  ∃ prop, parseProperty casing line = some prop ∧ prop.name = keyword ∧ casing.toUpperCase prop.value = name

theorem marks_iff {casing : CaseMapping} {keyword name line : JsString} : Marks casing keyword name line ↔
    ((parseProperty casing line).any fun prop => prop.name = keyword ∧ casing.toUpperCase prop.value = name) = true := by
  simp [Marks,Option.any_eq_true]

instance decidableMarks (keyword name line : JsString) : Decidable (Marks casing keyword name line) := decidable_of_iff' _ marks_iff

def IsProperty (line : JsString) : Prop := ∀ prop ∈ parseProperty casing line, prop.name ≠ js "BEGIN" ∧ prop.name ≠ js "END"

instance decidableIsProperty (line : JsString) : Decidable (IsProperty casing line) :=
  inferInstanceAs (Decidable (∀ prop ∈ parseProperty casing line, prop.name ≠ js "BEGIN" ∧ prop.name ≠ js "END"))

/-- Every component ends as it begins, and none is an event. -/
def Content.WellFormed : Content → Prop
  | .nil => True
  | .property line rest => IsProperty casing line ∧ rest.WellFormed
  | .component opening body closing rest =>
    (∃ name, name ≠ js "VEVENT" ∧ Marks casing (js "BEGIN") name opening ∧ Marks casing (js "END") name closing) ∧
    body.WellFormed ∧ rest.WellFormed

def propertiesOf (lines : List JsString) : List RawProperty := lines.filterMap (parseProperty casing)

def lastNamed (name : JsString) (props : List RawProperty) : Option RawProperty := (props.filter (·.name = name)).getLast?

structure ICalendar.WellFormed (c : ICalendar) : Prop where
  opening : Marks casing (js "BEGIN") (js "VCALENDAR") c.opening
  before : c.before.WellFormed casing
  beginEvent : Marks casing (js "BEGIN") (js "VEVENT") c.beginEvent
  event : c.event.WellFormed casing
  endEvent : Marks casing (js "END") (js "VEVENT") c.endEvent
  after : c.after.WellFormed casing
  closing : Marks casing (js "END") (js "VCALENDAR") c.closing
  uid : (lastNamed (js "UID") (propertiesOf casing c.event.strip.lines)).isSome = true
  dtstart : (lastNamed (js "DTSTART") (propertiesOf casing c.event.strip.lines)).isSome = true

end Trees

section Reading
variable (dates : DateParser)

/-- The value counts as a whole day. -/
def isDay (prop : RawProperty) : Bool := prop.params.lookup (js "VALUE") = some (js "DATE") || isDateText (trim prop.value)

def dateIso (prop : RawProperty) : JsString := ((parseDate dates prop).toOption.map Prod.fst).getD []

def DatesIn (props : List RawProperty) : Prop := ∀ prop ∈ props, isDateName prop.name = true → IsDate dates prop

/-- The last property of each name is the one that counts. -/
def uidOf (props : List RawProperty) : JsString := ((lastNamed (js "UID") props).map fun p => trim (unescapeText p.value)).getD []
def summaryOf (props : List RawProperty) : JsString := ((lastNamed (js "SUMMARY") props).map fun p => unescapeText p.value).getD []
def locationOf (props : List RawProperty) : Option JsString :=
  (lastNamed (js "LOCATION") props).bind fun p => orNull (unescapeText p.value)
def descriptionOf (props : List RawProperty) : Option JsString :=
  (lastNamed (js "DESCRIPTION") props).bind fun p => orNull (unescapeText p.value)
def startOf (props : List RawProperty) : JsString := ((lastNamed (js "DTSTART") props).map (dateIso dates)).getD []
def endOf (props : List RawProperty) : JsString := ((lastNamed (js "DTEND") props).map (dateIso dates)).getD (startOf dates props)
def allDayOf (props : List RawProperty) : Bool := props.any fun p => isDateName p.name && isDay p

def stateOf (props : List RawProperty) : EventState :=
  ⟨true,uidOf props,summaryOf props,locationOf props,descriptionOf props,startOf dates props,
    ((lastNamed (js "DTEND") props).map (dateIso dates)).getD [],allDayOf props⟩

/-- The return value of `parseICal`. -/
def eventOf (st : EventState) : Option ICalEvent :=
  if st.uid = [] ∨ st.startIso = [] then none
  else some ⟨st.uid,st.summary,st.startIso,if st.endIso = [] then st.startIso else st.endIso,st.allDay,st.location,st.description⟩

variable {casing : CaseMapping} {dates} {prop : RawProperty} {props : List RawProperty} {st st' : EventState} {name : JsString}

theorem lastNamed_snoc (name : JsString) (props : List RawProperty) (prop : RawProperty) :
    lastNamed name (props ++ [prop]) = if prop.name = name then some prop else lastNamed name props := by
  rw [lastNamed,List.filter_append]
  by_cases h : prop.name = name
  · rw [if_pos h,List.filter_cons_of_pos (by simpa using h),List.filter_nil,List.getLast?_concat]
  · rw [if_neg h,List.filter_cons_of_neg (by simpa using h),List.filter_nil,List.append_nil]
    rfl

theorem lastNamed_sublist {props' : List RawProperty} (h : props.Sublist props') (hsome : (lastNamed name props).isSome = true) :
    (lastNamed name props').isSome = true := by
  obtain ⟨prop,hprop⟩ := Option.isSome_iff_exists.mp hsome
  have hmem : prop ∈ props'.filter (·.name = name) := (h.filter _).subset (List.mem_of_getLast? hprop)
  rw [lastNamed,List.getLast?_eq_getLast_of_ne_nil (List.ne_nil_of_mem hmem)]
  rfl

theorem allDayOf_snoc (props : List RawProperty) (prop : RawProperty) :
    allDayOf (props ++ [prop]) = (allDayOf props || isDateName prop.name && isDay prop) := by
  rw [allDayOf,List.any_append,List.any_cons,List.any_nil,Bool.or_false]
  rfl

theorem toISOString_ne_nil (t : Instant) : toISOString t ≠ [] := fun h => by
  have hz : js "Z" = [] := (List.append_eq_nil_iff.mp h).2
  exact absurd hz (by decide)

/-- The three ways to a date: what a strict text gives, and what any other text gives. -/
theorem parseDate_cases (prop : RawProperty) :
    (∃ text, parseDate dates prop = (isoOf dates text).map fun iso => (iso,isDay prop)) ∨
      ∃ t, parseDate dates prop = .ok (toISOString t,isDay prop) := by
  unfold parseDate
  rw [isDay]
  dsimp only
  by_cases hday : prop.params.lookup (js "VALUE") = some (js "DATE") ∨ isDateText (trim prop.value) = true
  · have hform : (decide (prop.params.lookup (js "VALUE") = some (js "DATE")) || isDateText (trim prop.value)) =
      true := by simpa using hday
    rw [if_pos hday,hform]
    exact .inl ⟨_,rfl⟩
  · have hform : (decide (prop.params.lookup (js "VALUE") = some (js "DATE")) || isDateText (trim prop.value)) =
      false := by simpa using hday
    rw [if_neg hday,hform]
    split
    · exact .inl ⟨_,rfl⟩
    · exact .inr ⟨_,rfl⟩

theorem isoOf_cases (text : JsString) : isoOf dates text = .error (.rangeError "Invalid time value") ∨
    ∃ t, isoOf dates text = .ok (toISOString t) := by
  rw [isoOf]
  cases dates.parse text with
  | none => exact .inl rfl
  | some t => exact .inr ⟨t,rfl⟩

theorem parseDate_result (prop : RawProperty) :
    parseDate dates prop = .error (.rangeError "Invalid time value") ∨ ∃ t, parseDate dates prop = .ok (toISOString t,isDay prop) := by
  rcases parseDate_cases prop with ⟨text,htext⟩ | hother
  · rw [htext]
    rcases isoOf_cases text with he | ⟨t,ht⟩
    · rw [he]
      exact .inl rfl
    · rw [ht]
      exact .inr ⟨t,rfl⟩
  · exact .inr hother

theorem parseDate_eq (h : IsDate dates prop) : parseDate dates prop = .ok (dateIso dates prop,isDay prop) ∧ dateIso dates prop ≠ [] := by
  obtain ⟨r,hr⟩ := parseDate_ok_iff.mpr h
  rcases parseDate_result prop with he | ⟨t,ht⟩
  · rw [he] at hr
    cases hr
  · have hdate : dateIso dates prop = toISOString t := by
      rw [dateIso,ht]
      rfl
    rw [hdate]
    exact ⟨ht,toISOString_ne_nil t⟩

theorem parseDate_error (h : ¬IsDate dates prop) : parseDate dates prop = .error (.rangeError "Invalid time value") := by
  rcases parseDate_result prop with he | ⟨t,ht⟩
  · exact he
  · exact absurd (parseDate_ok_iff.mp ⟨_,ht⟩) h

theorem applyProperty_dtstart (h : prop.name = js "DTSTART") (st : EventState) : applyProperty dates st prop =
    (parseDate dates prop).map fun p => { st with startIso := p.1, allDay := st.allDay || p.2 } := by
  simp +decide only [applyProperty,h]
  rfl

theorem applyProperty_dtend (h : prop.name = js "DTEND") (st : EventState) : applyProperty dates st prop =
    (parseDate dates prop).map fun p => { st with endIso := p.1, allDay := st.allDay || p.2 } := by
  simp +decide only [applyProperty,h]
  rfl

theorem applyProperty_stateOf (h : isDateName prop.name = true → IsDate dates prop) :
    applyProperty dates (stateOf dates props) prop = .ok (stateOf dates (props ++ [prop])) := by
  simp only [stateOf,uidOf,summaryOf,locationOf,descriptionOf,startOf,lastNamed_snoc,allDayOf_snoc]
  by_cases huid : prop.name = js "UID"
  · simp +decide [applyProperty,huid,isDateName]
  by_cases hsummary : prop.name = js "SUMMARY"
  · simp +decide [applyProperty,hsummary,isDateName]
  by_cases hlocation : prop.name = js "LOCATION"
  · simp +decide [applyProperty,hlocation,isDateName]
  by_cases hdescription : prop.name = js "DESCRIPTION"
  · simp +decide [applyProperty,hdescription,isDateName]
  by_cases hstart : prop.name = js "DTSTART"
  · rw [applyProperty_dtstart hstart,(parseDate_eq (h (by rw [hstart]; decide))).1]
    simp +decide [hstart,isDateName,Except.map]
  by_cases hend : prop.name = js "DTEND"
  · rw [applyProperty_dtend hend,(parseDate_eq (h (by rw [hend]; decide))).1]
    simp +decide [hend,isDateName,Except.map]
  simp [applyProperty,huid,hsummary,hlocation,hdescription,hstart,hend,isDateName]

theorem applyProperty_error (h : ¬(isDateName prop.name = true → IsDate dates prop)) (st : EventState) :
    applyProperty dates st prop = .error (.rangeError "Invalid time value") := by
  obtain ⟨hname,hdate⟩ := Classical.not_imp.mp h
  rcases Bool.or_eq_true_iff.mp hname with hstart | hend
  · rw [applyProperty_dtstart (of_decide_eq_true hstart),parseDate_error hdate]
    rfl
  · rw [applyProperty_dtend (of_decide_eq_true hend),parseDate_error hdate]
    rfl

theorem foldlM_applyProperty (h : DatesIn dates props) :
    props.foldlM (applyProperty dates) { EventState.initial with inEvent := true } = .ok (stateOf dates props) := by
  induction props using List.reverseRecOn with
  | nil => rfl
  | append_singleton props prop ih =>
    have hprops : DatesIn dates props := fun p hp => h p (List.mem_append_left _ hp)
    rw [List.foldlM_append,ih hprops]
    change (List.foldlM (applyProperty dates) (stateOf dates props) [prop]) = _
    rw [List.foldlM_cons,applyProperty_stateOf (h prop (List.mem_append_right _ List.mem_cons_self))]
    rfl

theorem foldlM_applyProperty_error (h : ¬DatesIn dates props) (st : EventState) :
    props.foldlM (applyProperty dates) st = .error (.rangeError "Invalid time value") := by
  induction props generalizing st with
  | nil => exact absurd (fun p hp => absurd hp List.not_mem_nil) h
  | cons prop props ih =>
    rw [List.foldlM_cons]
    by_cases hprop : isDateName prop.name = true → IsDate dates prop
    · obtain ⟨mid,hmid⟩ : ∃ mid, applyProperty dates st prop = .ok mid := applyProperty_ok_iff.mpr hprop
      rw [hmid]
      exact ih (fun hprops => h (List.forall_mem_cons.mpr ⟨hprop,hprops⟩)) mid
    · rw [applyProperty_error hprop]
      rfl

end Reading

section Lines
variable {casing : CaseMapping} {dates : DateParser} {st st' : EventState} {line : JsString} {props : List RawProperty} {content : Content}

/-- The line begins or ends no event. -/
def Quiet (casing : CaseMapping) (line : JsString) : Prop :=
  ∀ prop ∈ parseProperty casing line, (prop.name = js "BEGIN" ∨ prop.name = js "END") → casing.toUpperCase prop.value ≠ js "VEVENT"

theorem IsProperty.quiet (h : IsProperty casing line) : Quiet casing line := by
  intro prop hprop hword
  exact absurd hword (not_or.mpr (h prop hprop))

theorem quiet_of_marks {keyword name : JsString} (h : Marks casing keyword name line) (hname : name ≠ js "VEVENT") :
    Quiet casing line := by
  obtain ⟨prop,hprop,-,hvalue⟩ := h
  intro prop' hprop' _
  obtain rfl := Option.some.inj (hprop.symm.trans hprop')
  rwa [hvalue]

theorem readLine_quiet (h : Quiet casing line) (hin : st.inEvent = false) : readLine casing dates st line = .ok st := by
  unfold readLine
  split
  · rfl
  · cases hprop : parseProperty casing line with
    | none => rfl
    | some prop =>
      have hword := h prop hprop
      dsimp only
      rw [if_neg fun hb => hword (.inl hb.1) hb.2,if_neg fun he => hword (.inr he.1) he.2,hin]
      rfl

theorem readLine_inside (h : Quiet casing line) (hin : st.inEvent = true) :
    readLine casing dates st line = (propertiesOf casing [line]).foldlM (applyProperty dates) st := by
  unfold readLine
  rw [propertiesOf,List.filterMap_cons,List.filterMap_nil]
  split
  · rename_i hline
    rw [hline,parseProperty_nil]
    rfl
  · cases hprop : parseProperty casing line with
    | none => rfl
    | some prop =>
      have hword := h prop hprop
      dsimp only
      rw [if_neg fun hb => hword (.inl hb.1) hb.2,if_neg fun he => hword (.inr he.1) he.2]
      simp

theorem readLine_begin (h : Marks casing (js "BEGIN") (js "VEVENT") line) (st : EventState) :
    readLine casing dates st line = .ok { st with inEvent := true } := by
  obtain ⟨prop,hprop,hname,hvalue⟩ := h
  have hline : line ≠ [] := fun hnil => by simp [hnil,parseProperty_nil] at hprop
  rw [readLine,if_neg hline,hprop]
  exact if_pos ⟨hname,hvalue⟩

theorem readLine_end (h : Marks casing (js "END") (js "VEVENT") line) (st : EventState) :
    readLine casing dates st line = .ok { st with inEvent := false } := by
  obtain ⟨prop,hprop,hname,hvalue⟩ := h
  have hline : line ≠ [] := fun hnil => by simp [hnil,parseProperty_nil] at hprop
  have hbegin : ¬(prop.name = js "BEGIN" ∧ casing.toUpperCase prop.value = js "VEVENT") := fun hb => by
    rw [hname] at hb
    exact absurd hb.1 (by decide)
  rw [readLine,if_neg hline,hprop]
  exact (if_neg hbegin).trans (if_pos ⟨hname,hvalue⟩)

/-- The mark of a component is no property of the event. -/
theorem propertiesOf_marks {keyword name : JsString} (h : Marks casing keyword name line)
    (hkeyword : keyword = js "BEGIN" ∨ keyword = js "END")
    (st : EventState) : (propertiesOf casing [line]).foldlM (applyProperty dates) st = .ok st := by
  obtain ⟨prop,hprop,hname,-⟩ := h
  have happly : applyProperty dates st prop = .ok st := by
    rcases hkeyword with rfl | rfl
    · simp +decide only [applyProperty,hname]
      rfl
    · simp +decide only [applyProperty,hname]
      rfl
  rw [propertiesOf,List.filterMap_cons,hprop]
  change applyProperty dates st prop >>= _ = _
  rw [happly]
  rfl

theorem foldlM_inEvent (h : props.foldlM (applyProperty dates) st = .ok st') : st'.inEvent = st.inEvent := by
  induction props generalizing st with
  | nil =>
    cases h
    rfl
  | cons prop props ih =>
    rw [List.foldlM_cons] at h
    cases hprop : applyProperty dates st prop with
    | error e =>
      rw [hprop] at h
      cases h
    | ok mid =>
      rw [hprop] at h
      exact (ih h).trans (applyProperty_inEvent hprop)

theorem propertiesOf_append (l m : List JsString) : propertiesOf casing (l ++ m) = propertiesOf casing l ++ propertiesOf casing m :=
  List.filterMap_append

/-- What stands beside the event is passed over. -/
theorem foldlM_outside (h : content.WellFormed casing) (hin : st.inEvent = false) :
    content.lines.foldlM (readLine casing dates) st = .ok st := by
  induction content with
  | nil => rfl
  | property line rest ih =>
    rw [Content.lines,List.foldlM_cons,readLine_quiet h.1.quiet hin]
    exact ih h.2
  | component opening body closing rest ihbody ihrest =>
    obtain ⟨⟨name,hname,hopening,hclosing⟩,hbody,hrest⟩ := h
    rw [Content.lines,List.foldlM_cons,readLine_quiet (quiet_of_marks hopening hname) hin]
    change List.foldlM _ st _ = _
    rw [List.foldlM_append,ihbody hbody]
    change List.foldlM _ st _ = _
    rw [List.foldlM_cons,readLine_quiet (quiet_of_marks hclosing hname) hin]
    exact ihrest hrest

/-- Within the event every property counts, however deep it stands. -/
theorem foldlM_inside (h : content.WellFormed casing) (hin : st.inEvent = true) : content.lines.foldlM (readLine casing dates) st =
    (propertiesOf casing content.allProperties).foldlM (applyProperty dates) st := by
  induction content generalizing st with
  | nil => rfl
  | property line rest ih =>
    have hsplit : propertiesOf casing (line :: rest.allProperties) = propertiesOf casing [line] ++
      propertiesOf casing rest.allProperties :=
      propertiesOf_append [line] _
    rw [Content.lines,Content.allProperties,hsplit,List.foldlM_cons,List.foldlM_append,readLine_inside h.1.quiet hin]
    cases hfirst : (propertiesOf casing [line]).foldlM (applyProperty dates) st with
    | error e => rfl
    | ok mid => exact ih h.2 ((foldlM_inEvent hfirst).trans hin)
  | component opening body closing rest ihbody ihrest =>
    obtain ⟨⟨name,hname,hopening,hclosing⟩,hbody,hrest⟩ := h
    rw [Content.lines,Content.allProperties,propertiesOf_append,List.foldlM_cons,List.foldlM_append,
      readLine_inside (quiet_of_marks hopening hname) hin,propertiesOf_marks hopening (.inl rfl)]
    change List.foldlM _ st _ = _
    rw [List.foldlM_append,ihbody hbody hin]
    cases hinner : (propertiesOf casing body.allProperties).foldlM (applyProperty dates) st with
    | error e => rfl
    | ok mid =>
      have hmid : mid.inEvent = true := (foldlM_inEvent hinner).trans hin
      change List.foldlM _ mid _ = List.foldlM _ mid _
      rw [List.foldlM_cons,readLine_inside (quiet_of_marks hclosing hname) hmid,propertiesOf_marks hclosing (.inr rfl)]
      exact ihrest hrest hmid

/-- Empty lines are passed over. -/
theorem foldlM_nonempty (lines : List JsString) (st : EventState) :
    lines.foldlM (readLine casing dates) st = (lines.filter (· ≠ [])).foldlM (readLine casing dates) st := by
  induction lines generalizing st with
  | nil => rfl
  | cons line lines ih =>
    rw [List.foldlM_cons]
    by_cases hline : line = []
    · rw [List.filter_cons_of_neg (by simpa using hline),← ih st,hline]
      rfl
    · rw [List.filter_cons_of_pos (by simpa using hline),List.foldlM_cons]
      exact congrArg _ (funext ih)

end Lines

section Calendars
variable {casing : CaseMapping} {dates : DateParser} {c : ICalendar} {text : JsString}

def ICalendar.properties (casing : CaseMapping) (c : ICalendar) : List RawProperty := propertiesOf casing c.event.allProperties

/-- A text with the lines of the calendar, however they are folded. -/
def IsText (text : JsString) (c : ICalendar) : Prop := (unfoldLines text).filter (· ≠ []) = c.lines

theorem parseICal_eq (h : c.WellFormed casing) (htext : IsText text c) : parseICal casing dates text =
    ((c.properties casing).foldlM (applyProperty dates) { EventState.initial with inEvent := true }).map eventOf := by
  have hopening : Quiet casing c.opening := quiet_of_marks h.opening (by decide)
  have hclosing : Quiet casing c.closing := quiet_of_marks h.closing (by decide)
  have hlines : (unfoldLines text).foldlM (readLine casing dates) .initial =
      ((c.properties casing).foldlM (applyProperty dates) { EventState.initial with inEvent := true }).map fun st =>
        { st with inEvent := false } := by
    rw [foldlM_nonempty,htext,ICalendar.lines,List.foldlM_cons,readLine_quiet hopening rfl]
    change List.foldlM _ EventState.initial _ = _
    rw [List.foldlM_append,foldlM_outside h.before rfl]
    change List.foldlM _ EventState.initial _ = _
    rw [List.foldlM_cons,readLine_begin h.beginEvent]
    change List.foldlM _ { EventState.initial with inEvent := true } _ = _
    rw [List.foldlM_append,foldlM_inside h.event rfl,ICalendar.properties]
    cases (propertiesOf casing c.event.allProperties).foldlM (applyProperty dates) { EventState.initial with inEvent := true } with
    | error e => rfl
    | ok st =>
      change List.foldlM _ st _ = _
      rw [List.foldlM_cons,readLine_end h.endEvent]
      change List.foldlM _ { st with inEvent := false } _ = _
      rw [List.foldlM_append,foldlM_outside h.after rfl]
      change List.foldlM _ { st with inEvent := false } _ = _
      rw [List.foldlM_cons,readLine_quiet hclosing rfl]
      rfl
  rw [parseICal,hlines]
  cases (c.properties casing).foldlM (applyProperty dates) { EventState.initial with inEvent := true } with
  | error e => rfl
  | ok st =>
    change (if st.uid = [] ∨ st.startIso = [] then pure none else pure (some _) : Except JsError (Option ICalEvent)) = .ok (eventOf st)
    rw [eventOf]
    split
    · rfl
    · rfl

theorem eventOf_stateOf {props : List RawProperty} (h : DatesIn dates props) (hstart : (lastNamed (js "DTSTART") props).isSome = true) :
    eventOf (stateOf dates props) = if uidOf props = [] then none
      else some ⟨uidOf props,summaryOf props,startOf dates props,endOf dates props,allDayOf props,
      locationOf props,descriptionOf props⟩ := by
  have hiso {name : JsString} {prop : RawProperty} (hname : isDateName name = true) (hprop : lastNamed name props = some prop) :
      dateIso dates prop ≠ [] := by
    obtain ⟨hmem,hpname⟩ := List.mem_filter.mp (List.mem_of_getLast? hprop)
    exact (parseDate_eq (h prop hmem (by rw [of_decide_eq_true hpname]; exact hname))).2
  obtain ⟨start,hlast⟩ := Option.isSome_iff_exists.mp hstart
  have hne : startOf dates props ≠ [] := by
    rw [startOf,hlast]
    exact hiso (by decide) hlast
  have hend : (if (stateOf dates props).endIso = [] then startOf dates props else (stateOf dates props).endIso) = endOf dates props := by
    rw [stateOf,endOf]
    cases hlast' : lastNamed (js "DTEND") props with
    | none => rfl
    | some prop => exact if_neg (hiso (by decide) hlast')
  rw [eventOf]
  by_cases huid : uidOf props = []
  · exact (if_pos (.inl huid)).trans (if_pos huid).symm
  · refine (if_neg (not_or.mpr ⟨huid,hne⟩)).trans (Eq.trans ?_ (if_neg huid).symm)
    rw [← hend]
    rfl

theorem strip_wellFormed {content : Content} (h : content.WellFormed casing) : content.strip.WellFormed casing := by
  induction content with
  | nil => trivial
  | property line rest ih => exact ⟨h.1,ih h.2⟩
  | component opening body closing rest _ ih => exact ih h.2.2

theorem strip_lines (content : Content) : content.strip.lines = content.strip.allProperties := by
  induction content with
  | nil => rfl
  | property line rest ih => rw [Content.strip,Content.lines,Content.allProperties,ih]
  | component opening body closing rest _ ih => exact ih

theorem strip_sublist (content : Content) : content.strip.allProperties.Sublist content.allProperties := by
  induction content with
  | nil => exact List.Sublist.refl _
  | property line rest ih => exact ih.cons_cons line
  | component opening body closing rest _ ih => exact ih.trans (List.sublist_append_right _ _)

theorem strip_strip (content : Content) : content.strip.strip = content.strip := by
  induction content with
  | nil => rfl
  | property line rest ih => rw [Content.strip,Content.strip,ih]
  | component opening body closing rest _ ih => exact ih

theorem ICalendar.WellFormed.strip (h : c.WellFormed casing) : c.strip.WellFormed casing where
  opening := h.opening
  before := strip_wellFormed h.before
  beginEvent := h.beginEvent
  event := strip_wellFormed h.event
  endEvent := h.endEvent
  after := strip_wellFormed h.after
  closing := h.closing
  uid := by
    rw [ICalendar.strip,strip_strip]
    exact h.uid
  dtstart := by
    rw [ICalendar.strip,strip_strip]
    exact h.dtstart

/-- Of each name the last property of the event, nested ones among them, reads as the last one of its own, and no nested
date is the first that counts as a day or is no date. -/
structure NestedHarmless (casing : CaseMapping) (dates : DateParser) (c : ICalendar) : Prop where
  valid : DatesIn dates (c.strip.properties casing) → DatesIn dates (c.properties casing)
  uid : DatesIn dates (c.strip.properties casing) → uidOf (c.properties casing) = uidOf (c.strip.properties casing)
  others : DatesIn dates (c.strip.properties casing) → uidOf (c.strip.properties casing) ≠ [] →
    summaryOf (c.properties casing) = summaryOf (c.strip.properties casing) ∧
    startOf dates (c.properties casing) = startOf dates (c.strip.properties casing) ∧
    endOf dates (c.properties casing) = endOf dates (c.strip.properties casing) ∧
    allDayOf (c.properties casing) = allDayOf (c.strip.properties casing) ∧
    locationOf (c.properties casing) = locationOf (c.strip.properties casing) ∧
    descriptionOf (c.properties casing) = descriptionOf (c.strip.properties casing)

/-- Other components are read past where the nested ones are harmless. -/
theorem read_past_iff (h : c.WellFormed casing) {stripped : JsString} (htext : IsText text c) (hstripped : IsText stripped c.strip) :
    parseICal casing dates text = parseICal casing dates stripped ↔ NestedHarmless casing dates c := by
  have hsub : (c.strip.properties casing).Sublist (c.properties casing) := (strip_sublist c.event).filterMap _
  have hstart : (lastNamed (js "DTSTART") (c.strip.properties casing)).isSome = true := by
    rw [ICalendar.properties,ICalendar.strip,← strip_lines]
    exact h.dtstart
  rw [parseICal_eq h htext,parseICal_eq h.strip hstripped]
  by_cases hown : DatesIn dates (c.strip.properties casing)
  · by_cases hall : DatesIn dates (c.properties casing)
    · have hstart' : (lastNamed (js "DTSTART") (c.properties casing)).isSome = true := lastNamed_sublist hsub hstart
      rw [foldlM_applyProperty hall,foldlM_applyProperty hown]
      change Except.ok (eventOf _) = Except.ok (eventOf _) ↔ _
      rw [Except.ok.injEq,eventOf_stateOf hall hstart',eventOf_stateOf hown hstart]
      constructor
      · intro he
        by_cases huid : uidOf (c.strip.properties casing) = []
        · rw [if_pos huid] at he
          have hnone : uidOf (c.properties casing) = [] := by
            by_contra hne
            rw [if_neg hne] at he
            cases he
          exact ⟨fun _ => hall,fun _ => hnone.trans huid.symm,fun _ hne => absurd huid hne⟩
        · rw [if_neg huid] at he
          have hne : ¬uidOf (c.properties casing) = [] := fun hnone => by
            rw [if_pos hnone] at he
            cases he
          rw [if_neg hne,Option.some.injEq,ICalEvent.mk.injEq] at he
          exact ⟨fun _ => hall,fun _ => he.1,fun _ _ => he.2⟩
      · intro hharmless
        rw [hharmless.uid hown]
        by_cases huid : uidOf (c.strip.properties casing) = []
        · rw [if_pos huid,if_pos huid]
        · obtain ⟨hsummary,hstarts,hends,hallDay,hlocation,hdescription⟩ := hharmless.others hown huid
          rw [if_neg huid,if_neg huid,hsummary,hstarts,hends,hallDay,hlocation,hdescription]
    · rw [foldlM_applyProperty_error hall,foldlM_applyProperty hown]
      exact iff_of_false (fun he => by cases he) fun hharmless => hall (hharmless.valid hown)
  · have hall : ¬DatesIn dates (c.properties casing) := fun hall => hown fun prop hprop => hall prop (hsub.subset hprop)
    rw [foldlM_applyProperty_error hall,foldlM_applyProperty_error hown]
    exact iff_of_true rfl ⟨fun h => absurd h hown,fun h => absurd h hown,fun h => absurd h hown⟩

def Content.nestedProperties : Content → List JsString
  | .nil => []
  | .property _ rest => rest.nestedProperties
  | .component _ body _ rest => body.allProperties ++ rest.nestedProperties

def eventNames : List JsString := [js "UID",js "SUMMARY",js "LOCATION",js "DESCRIPTION",js "DTSTART",js "DTEND"]

theorem filter_strip (p : RawProperty → Bool) (content : Content)
    (h : ∀ prop ∈ propertiesOf casing content.nestedProperties, p prop = false) :
    (propertiesOf casing content.allProperties).filter p = (propertiesOf casing content.strip.allProperties).filter p := by
  induction content with
  | nil => rfl
  | property line rest ih =>
    have hsplit (lines : List JsString) : propertiesOf casing (line :: lines) = propertiesOf casing [line] ++ propertiesOf casing lines :=
      propertiesOf_append [line] lines
    rw [Content.allProperties,Content.strip,Content.allProperties,hsplit rest.allProperties,
      hsplit rest.strip.allProperties,List.filter_append,List.filter_append,ih h]
  | component opening body closing rest _ ih =>
    rw [Content.nestedProperties,propertiesOf_append] at h
    have hbody : (propertiesOf casing body.allProperties).filter p = [] :=
      List.filter_eq_nil_iff.mpr fun prop hprop => by simp [h prop (List.mem_append_left _ hprop)]
    rw [Content.allProperties,Content.strip,propertiesOf_append,List.filter_append,hbody,List.nil_append]
    exact ih fun prop hprop => h prop (List.mem_append_right _ hprop)

/-- Nested components without a property of these names. -/
theorem harmless_of_names (h : ∀ prop ∈ propertiesOf casing c.event.nestedProperties, prop.name ∉ eventNames) :
    NestedHarmless casing dates c := by
  have hnamed {name : JsString} (hname : name ∈ eventNames) :
    lastNamed name (c.properties casing) = lastNamed name (c.strip.properties casing) := by
    refine congrArg List.getLast? (filter_strip (fun prop => decide (prop.name = name)) c.event fun prop hprop => ?_)
    exact decide_eq_false fun he => h prop hprop (he ▸ hname)
  have hdates : (c.properties casing).filter (fun prop => isDateName prop.name) = (c.strip.properties casing).filter fun prop =>
    isDateName prop.name := by
    refine filter_strip (fun prop => isDateName prop.name) c.event fun prop hprop => ?_
    rw [Bool.eq_false_iff]
    intro hname
    rcases Bool.or_eq_true_iff.mp hname with hstart | hend
    · exact h prop hprop (by rw [of_decide_eq_true hstart]; decide)
    · exact h prop hprop (by rw [of_decide_eq_true hend]; decide)
  have hallDay : allDayOf (c.properties casing) = allDayOf (c.strip.properties casing) := by
    have hfilter (props : List RawProperty) : allDayOf props = (props.filter fun prop => isDateName prop.name).any isDay :=
      List.any_filter.symm
    rw [hfilter,hfilter,hdates]
  refine ⟨fun hown prop hprop hname => ?_,fun _ => ?_,fun _ _ => ⟨?_,?_,?_,hallDay,?_,?_⟩⟩
  · have hmem : prop ∈ (c.strip.properties casing).filter fun prop => isDateName prop.name := hdates ▸ List.mem_filter.mpr ⟨hprop,hname⟩
    exact hown prop (List.mem_filter.mp hmem).1 hname
  · rw [uidOf,hnamed (by decide),uidOf]
  · rw [summaryOf,hnamed (by decide),summaryOf]
  · rw [startOf,hnamed (by decide),startOf]
  · rw [endOf,startOf,hnamed (by decide),hnamed (by decide),endOf,startOf]
  · rw [locationOf,hnamed (by decide),locationOf]
  · rw [descriptionOf,hnamed (by decide),descriptionOf]

theorem isText_joinFolded (hne : ∀ line ∈ c.lines, line ≠ []) (hsound : ∀ line ∈ c.lines, Sound line) : IsText (joinFolded c.lines) c := by
  have hlines : c.lines ≠ [] := List.cons_ne_nil _ _
  rw [IsText,unfoldLines,unfoldLines_joinFolded hlines hsound,List.filter_append]
  refine Eq.trans (congrArg (c.lines.filter _ ++ ·) rfl) ((List.append_nil _).trans (List.filter_eq_self.mpr fun line hline => ?_))
  simpa using hne line hline

def alarmed (alarm : Content) : ICalendar where
  opening := js "BEGIN:VCALENDAR"
  before := .property (js "VERSION:2.0")
    (.component (js "BEGIN:VTIMEZONE") (.property (js "TZID:Europe/Oslo") (.component (js "BEGIN:STANDARD")
    (.property (js "DTSTART:19701025T030000") .nil) (js "END:STANDARD") .nil)) (js "END:VTIMEZONE") .nil)
  beginEvent := js "BEGIN:VEVENT"
  event := .property (js "UID:a") (.property (js "DTSTART:20260509T083000Z") (.property (js "DESCRIPTION:Agenda")
    (.component (js "BEGIN:VALARM") alarm (js "END:VALARM") .nil)))
  endEvent := js "END:VEVENT"
  after := .nil
  closing := js "END:VCALENDAR"

/-- The lines of the event itself. -/
def agendaLines : List JsString := [js "UID:a",js "DTSTART:20260509T083000Z",js "DESCRIPTION:Agenda"]

theorem alarmed_wellFormed {alarm : Content} (h : alarm.WellFormed asciiCase) : (alarmed alarm).WellFormed asciiCase where
  opening := (by decide +kernel : Marks asciiCase (js "BEGIN") (js "VCALENDAR") (js "BEGIN:VCALENDAR"))
  before := by
    refine ⟨?_,⟨js "VTIMEZONE",by decide,by decide +kernel,by decide +kernel⟩,
      ⟨?_,⟨js "STANDARD",by decide,by decide +kernel,by decide +kernel⟩,
      ⟨?_,trivial⟩,trivial⟩,trivial⟩
    all_goals decide +kernel
  beginEvent := (by decide +kernel : Marks asciiCase (js "BEGIN") (js "VEVENT") (js "BEGIN:VEVENT"))
  event := by
    refine ⟨?_,?_,?_,⟨js "VALARM",by decide,by decide +kernel,by decide +kernel⟩,h,trivial⟩
    all_goals decide +kernel
  endEvent := (by decide +kernel : Marks asciiCase (js "END") (js "VEVENT") (js "END:VEVENT"))
  after := trivial
  closing := (by decide +kernel : Marks asciiCase (js "END") (js "VCALENDAR") (js "END:VCALENDAR"))
  uid := (by decide +kernel : (lastNamed (js "UID") (propertiesOf asciiCase agendaLines)).isSome = true)
  dtstart := (by decide +kernel : (lastNamed (js "DTSTART") (propertiesOf asciiCase agendaLines)).isSome = true)

def audioAlarm : Content := .property (js "ACTION:AUDIO") (.property (js "TRIGGER:-PT5M") .nil)
def displayAlarm : Content := .property (js "ACTION:DISPLAY") (.property (js "TRIGGER:-PT5M") (.property (js "DESCRIPTION:Reminder") .nil))

theorem alarms_wellFormed : audioAlarm.WellFormed asciiCase ∧ displayAlarm.WellFormed asciiCase := by
  refine ⟨⟨?_,?_,trivial⟩,⟨?_,?_,?_,trivial⟩⟩
  all_goals decide +kernel

theorem isText_alarmed : IsText (joinFolded (alarmed audioAlarm).lines) (alarmed audioAlarm) ∧
    IsText (joinFolded (alarmed audioAlarm).strip.lines) (alarmed audioAlarm).strip ∧
    IsText (joinFolded (alarmed displayAlarm).lines) (alarmed displayAlarm) ∧
    IsText (joinFolded (alarmed displayAlarm).strip.lines) (alarmed displayAlarm).strip :=
  ⟨isText_joinFolded (by decide) (by decide),isText_joinFolded (by decide) (by decide),isText_joinFolded (by decide) (by decide),
    isText_joinFolded (by decide) (by decide)⟩

theorem audio_alarm_read_past : parseICal asciiCase isoParser (joinFolded (alarmed audioAlarm).lines) =
    parseICal asciiCase isoParser (joinFolded (alarmed audioAlarm).strip.lines) :=
  (read_past_iff (alarmed_wellFormed alarms_wellFormed.1) isText_alarmed.1 isText_alarmed.2.1).mpr
    (harmless_of_names (by decide +kernel))

/-- The text of the reminder is taken for the description of the event. -/
theorem display_alarm_read : ¬∀ casing dates (c : ICalendar) text stripped, c.WellFormed casing → IsText text c → IsText stripped c.strip →
    parseICal casing dates text = parseICal casing dates stripped := by
  intro h
  have hwellFormed := alarmed_wellFormed alarms_wellFormed.2
  obtain ⟨_,_,htext,hstripped⟩ := isText_alarmed
  have heq := h asciiCase isoParser (alarmed displayAlarm) _ _ hwellFormed htext hstripped
  rw [parseICal_eq hwellFormed htext,parseICal_eq hwellFormed.strip hstripped] at heq
  exact absurd heq (by decide +kernel)

end Calendars
end JustMail.Calendar
