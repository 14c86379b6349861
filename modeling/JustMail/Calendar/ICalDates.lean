import JustMail.Calendar.ICal

/-! Which texts `parseICal` cannot read: it throws where a date that has the form of one is no date. -/
namespace JustMail.Calendar
open Foundation Dav.ContentLine
variable (casing : CaseMapping) (dates : DateParser)

/-- The text that `parseDate` makes a date of without asking whether it is one. -/
def strictDateText (prop : RawProperty) : Option JsString :=
  let v := trim prop.value
  if prop.params.lookup (js "VALUE") = some (js "DATE") ∨ isDateText v then
    some (v.take 4 ++ js "-" ++ (v.drop 4).take 2 ++ js "-" ++ (v.drop 6).take 2 ++ js "T00:00:00Z")
  else match matchDateTime v with
    | some [y,mo,d,h,mi,s] =>
      some (y ++ js "-" ++ mo ++ js "-" ++ d ++ js "T" ++ h ++ js ":" ++ mi ++ js ":" ++ s ++ js "Z")
    | _ => none

def IsDate (prop : RawProperty) : Prop := ∀ text ∈ strictDateText prop, (dates.parse text).isSome = true

instance (prop : RawProperty) : Decidable (IsDate dates prop) := Option.decidableForallMem _

def isDateName (name : JsString) : Bool := name = js "DTSTART" || name = js "DTEND"

def eventFlag (inEvent : Bool) (line : JsString) : Bool :=
  match parseProperty casing line with
  | none => inEvent
  | some prop =>
    if prop.name = js "BEGIN" ∧ casing.toUpperCase prop.value = js "VEVENT" then true
    else if prop.name = js "END" ∧ casing.toUpperCase prop.value = js "VEVENT" then false
    else inEvent

/-- Every DTSTART and DTEND between BEGIN:VEVENT and END:VEVENT is a date. -/
def DatesValid : Bool → List JsString → Prop
  | _,[] => True
  | inEvent,line :: lines =>
    (inEvent = true → ∀ prop ∈ parseProperty casing line, isDateName prop.name = true → IsDate dates prop) ∧
    DatesValid (eventFlag casing inEvent line) lines

instance decidableDatesValid : (inEvent : Bool) → (lines : List JsString) → Decidable (DatesValid casing dates inEvent lines)
  | _,[] => inferInstanceAs (Decidable True)
  | inEvent,line :: lines =>
    have := decidableDatesValid (eventFlag casing inEvent line) lines
    have : ∀ o : Option RawProperty, Decidable (∀ prop ∈ o, isDateName prop.name = true → IsDate dates prop) :=
      fun o => Option.decidableForallMem o
    inferInstanceAs (Decidable (_ ∧ _))

variable {casing dates} {prop : RawProperty} {st st' : EventState} {line : JsString}

theorem isoOf_ok_iff {text : JsString} : (∃ iso, isoOf dates text = .ok iso) ↔ (dates.parse text).isSome = true := by
  rw [isoOf]
  cases dates.parse text with
  | none => simp
  | some t => simp

theorem parseDate_ok_iff : (∃ r, parseDate dates prop = .ok r) ↔ IsDate dates prop := by
  have hbind (text : JsString) (allDay : Bool) :
      (∃ r, (do let iso ← isoOf dates text; pure (iso,allDay) : Except JsError (JsString × Bool)) = .ok r) ↔
        (dates.parse text).isSome = true := by
    rw [← isoOf_ok_iff]
    cases isoOf dates text with
    | error e => simp [bind,Except.bind]
    | ok iso => simp [bind,Except.bind,pure,Except.pure]
  rw [parseDate,IsDate,strictDateText]
  split
  · simpa using hbind _ true
  · split
    · rename_i hmatch
      simpa [hmatch] using hbind _ false
    · simp

theorem applyProperty_ok_iff : (∃ st', applyProperty dates st prop = .ok st') ↔ (isDateName prop.name = true → IsDate dates prop) := by
  have hdate (f : EventState → JsString × Bool → EventState) :
      (∃ st', (do let p ← parseDate dates prop; pure (f st p) : Except JsError EventState) = .ok st') ↔ IsDate dates prop := by
    rw [← parseDate_ok_iff]
    cases parseDate dates prop with
    | error e => simp [bind,Except.bind]
    | ok p => simp [bind,Except.bind,pure,Except.pure]
  have hplain {result : EventState} (hname : isDateName prop.name = false) :
      (∃ st', (.ok result : Except JsError EventState) = .ok st') ↔ (isDateName prop.name = true → IsDate dates prop) :=
    iff_of_true ⟨result,rfl⟩ fun h => by simp [hname] at h
  unfold applyProperty
  split_ifs with huid hsummary hlocation hdescription hstart hend
  · exact hplain (by rw [huid]; decide)
  · exact hplain (by rw [hsummary]; decide)
  · exact hplain (by rw [hlocation]; decide)
  · exact hplain (by rw [hdescription]; decide)
  · rw [hstart]
    exact (hdate fun st p => { st with startIso := p.1, allDay := st.allDay || p.2 }).trans ⟨fun h _ => h,fun h => h (by decide)⟩
  · rw [hend]
    exact (hdate fun st p => { st with endIso := p.1, allDay := st.allDay || p.2 }).trans ⟨fun h _ => h,fun h => h (by decide)⟩
  · exact hplain (by simp [isDateName,hstart,hend])

theorem applyProperty_inEvent (h : applyProperty dates st prop = .ok st') : st'.inEvent = st.inEvent := by
  have hdate {f : EventState → JsString × Bool → EventState} (hf : ∀ p, (f st p).inEvent = st.inEvent)
      (h : (do let p ← parseDate dates prop; pure (f st p) : Except JsError EventState) = .ok st') : st'.inEvent = st.inEvent := by
    cases hp : parseDate dates prop with
    | error e =>
      rw [hp] at h
      cases h
    | ok p =>
      rw [hp] at h
      cases h
      exact hf p
  unfold applyProperty at h
  split_ifs at h
  · cases h
    rfl
  · cases h
    rfl
  · cases h
    rfl
  · cases h
    rfl
  · exact hdate (f := fun st p => { st with startIso := p.1, allDay := st.allDay || p.2 }) (fun _ => rfl) h
  · exact hdate (f := fun st p => { st with endIso := p.1, allDay := st.allDay || p.2 }) (fun _ => rfl) h
  · cases h
    rfl

/-- Empty lines have no property. -/
theorem parseProperty_nil : parseProperty casing [] = none := rfl

theorem readLine_ok_iff : (∃ st', readLine casing dates st line = .ok st') ↔
    (st.inEvent = true → ∀ prop ∈ parseProperty casing line, isDateName prop.name = true → IsDate dates prop) := by
  unfold readLine
  split
  · rename_i hline
    rw [hline,parseProperty_nil]
    simp
  · cases hprop : parseProperty casing line with
    | none => simp
    | some prop =>
      have hname {name : JsString} (h : prop.name = name) (hfalse : isDateName name = false) :
          (∃ st' : EventState, (.ok st : Except JsError EventState) = .ok st') ↔
            (st.inEvent = true → isDateName prop.name = true → IsDate dates prop) :=
        iff_of_true ⟨st,rfl⟩ fun _ hdate => by simp [h,hfalse] at hdate
      simp only [Option.mem_some_iff,forall_eq']
      split_ifs with hbegin hend hin
      · exact iff_of_true ⟨_,rfl⟩ fun _ hdate => by rw [hbegin.1] at hdate; exact absurd hdate (by decide)
      · exact iff_of_true ⟨_,rfl⟩ fun _ hdate => by rw [hend.1] at hdate; exact absurd hdate (by decide)
      · exact applyProperty_ok_iff.trans ⟨fun h _ => h,fun h => h hin⟩
      · exact iff_of_true ⟨_,rfl⟩ fun hin' => absurd hin' hin

theorem readLine_inEvent (h : readLine casing dates st line = .ok st') : st'.inEvent = eventFlag casing st.inEvent line := by
  unfold readLine at h
  rw [eventFlag]
  split at h
  · rename_i hline
    cases h
    rw [hline,parseProperty_nil]
  · cases hprop : parseProperty casing line with
    | none =>
      rw [hprop] at h
      cases h
      rfl
    | some prop =>
      rw [hprop] at h
      dsimp only at h ⊢
      split_ifs at h ⊢
      · cases h
        rfl
      · cases h
        rfl
      · exact applyProperty_inEvent h
      · cases h
        rfl

theorem foldlM_ok_iff (lines : List JsString) (st : EventState) :
    (∃ st', lines.foldlM (readLine casing dates) st = .ok st') ↔ DatesValid casing dates st.inEvent lines := by
  induction lines generalizing st with
  | nil => simp [DatesValid,pure,Except.pure]
  | cons line lines ih =>
    rw [DatesValid,← readLine_ok_iff,List.foldlM_cons]
    cases hread : readLine casing dates st line with
    | error e => simp [bind,Except.bind]
    | ok mid =>
      rw [← readLine_inEvent hread,← ih mid]
      exact ⟨fun h => ⟨⟨mid,rfl⟩,h⟩,fun h => h.2⟩

/-- A text is read, to an event or to none, exactly when its dates are dates. -/
theorem parseICal_ok_iff (text : JsString) : (∃ r, parseICal casing dates text = .ok r) ↔
    DatesValid casing dates false (unfoldLines text) := by
  rw [show false = EventState.initial.inEvent from rfl,← foldlM_ok_iff,parseICal]
  cases (unfoldLines text).foldlM (readLine casing dates) .initial with
  | error e => simp [bind,Except.bind]
  | ok st =>
    refine iff_of_true ?_ ⟨st,rfl⟩
    change ∃ r, (if st.uid = [] ∨ st.startIso = [] then pure none else pure (some _) : Except JsError (Option ICalEvent)) = .ok r
    split
    · exact ⟨_,rfl⟩
    · exact ⟨_,rfl⟩

end JustMail.Calendar
