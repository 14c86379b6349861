import JustMail.Calendar.ICalProperty
import JustMail.Contacts.VCardProperty

/-! Cards and events of content lines: what a line is read as, and which contact or event the text holds. -/
namespace JustMail.Dav
open Foundation Foundation.ContentLine

/-- The lines of a text, folded or not. -/
def Holds (text : JsString) (lines : List ContentLine) : Prop :=
  (ContentLine.unfoldLines text).filter (· ≠ []) = lines.map ContentLine.render

section Cards
variable {casing : CaseMapping} {line line' : ContentLine} {lines lines' : List ContentLine}

/-- Two lines that say the same of the contact. -/
structure SameDetail (casing : CaseMapping) (line line' : ContentLine) : Prop where
  name : casing.toUpperCase line.name = casing.toUpperCase line'.name
  value : line.value = line'.value
  type : Contacts.valuesOf casing line.params (js "TYPE") = Contacts.valuesOf casing line'.params (js "TYPE")

theorem render_ne_nil (line : ContentLine) : line.render ≠ [] := List.append_ne_nil_of_right_ne_nil _ (List.cons_ne_nil _ _)

theorem applyProperty_congr {prop prop' : Contacts.RawProperty} (hname : prop.name = prop'.name) (hvalue : prop.value = prop'.value)
    (htype : prop.params.lookup (js "TYPE") = prop'.params.lookup (js "TYPE")) (st : Contacts.CardState) :
    Contacts.applyProperty casing st prop = Contacts.applyProperty casing st prop' := by
  have hfirst : Contacts.firstType casing prop = Contacts.firstType casing prop' := by rw [Contacts.firstType,Contacts.firstType,htype]
  rw [Contacts.applyProperty,Contacts.applyProperty,hname,hvalue,hfirst]

theorem readLine_card (hline : Contacts.ReadsLine casing line) (hline' : Contacts.ReadsLine casing line')
    (h : SameDetail casing line line')
    (st : Contacts.CardState) : Contacts.readLine casing st line.render = Contacts.readLine casing st line'.render := by
  obtain ⟨prop,hprop,hparsed⟩ := hline
  obtain ⟨prop',hprop',hparsed'⟩ := hline'
  rw [Contacts.readLine,Contacts.readLine,if_neg (render_ne_nil line),if_neg (render_ne_nil line'),hprop,hprop']
  refine applyProperty_congr ?_ ?_ ?_ st
  · rw [hparsed.name,hparsed'.name,h.name]
  · rw [hparsed.value,hparsed'.value,h.value]
  · rw [hparsed.params,hparsed'.params,h.type]

/-- The empty lines are skipped. -/
theorem foldl_readLine (lines : List JsString) (st : Contacts.CardState) :
    lines.foldl (Contacts.readLine casing) st = (lines.filter (· ≠ [])).foldl (Contacts.readLine casing) st := by
  induction lines generalizing st with
  | nil => rfl
  | cons line lines ih =>
    by_cases hline : line = []
    · subst hline
      exact ih st
    · rw [List.filter_cons_of_pos (by simpa using hline)]
      exact ih _

theorem readLines_card (h : List.Forall₂ (SameDetail casing) lines lines') (hlines : ∀ line ∈ lines, Contacts.ReadsLine casing line)
    (hlines' : ∀ line ∈ lines', Contacts.ReadsLine casing line) (st : Contacts.CardState) :
    (lines.map ContentLine.render).foldl (Contacts.readLine casing) st =
    (lines'.map ContentLine.render).foldl (Contacts.readLine casing) st := by
  induction h generalizing st with
  | nil => rfl
  | cons hsame _ ih =>
    obtain ⟨hline,hlines⟩ := List.forall_mem_cons.mp hlines
    obtain ⟨hline',hlines'⟩ := List.forall_mem_cons.mp hlines'
    rw [List.map_cons,List.map_cons,List.foldl_cons,List.foldl_cons,readLine_card hline hline' hsame]
    exact ih hlines hlines' _

/-- The same contact, whatever else the lines have. -/
theorem parseVCard_congr {text text' : JsString} (htext : Holds text lines) (htext' : Holds text' lines')
    (h : List.Forall₂ (SameDetail casing) lines lines') (hlines : ∀ line ∈ lines, Contacts.ReadsLine casing line)
    (hlines' : ∀ line ∈ lines', Contacts.ReadsLine casing line) : Contacts.parseVCard casing text = Contacts.parseVCard casing text' := by
  have hstate : (Contacts.unfoldLines text).foldl (Contacts.readLine casing) .initial =
      (Contacts.unfoldLines text').foldl (Contacts.readLine casing) .initial := by
    rw [foldl_readLine,foldl_readLine (Contacts.unfoldLines text')]
    rw [show (Contacts.unfoldLines text).filter (· ≠ []) = _ from htext,show (Contacts.unfoldLines text').filter (· ≠ []) = _ from htext']
    exact readLines_card h hlines hlines' _
  rw [Contacts.parseVCard,Contacts.parseVCard,hstate]

end Cards
section Events
variable {casing : CaseMapping} {dates : DateParser} {line line' : ContentLine} {lines lines' : List ContentLine}

/-- Two lines that say the same of the event. -/
structure SameEntry (casing : CaseMapping) (line line' : ContentLine) : Prop where
  name : casing.toUpperCase line.name = casing.toUpperCase line'.name
  value : line.value = line'.value
  date : ∀ raw, Calendar.Gives casing line.params (js "VALUE") raw ↔ Calendar.Gives casing line'.params (js "VALUE") raw

theorem applyEvent_congr {prop prop' : Calendar.RawProperty} (hname : prop.name = prop'.name) (hvalue : prop.value = prop'.value)
    (hdate : prop.params.lookup (js "VALUE") = prop'.params.lookup (js "VALUE")) (st : Calendar.EventState) :
    Calendar.applyProperty dates st prop = Calendar.applyProperty dates st prop' := by
  have hparse : Calendar.parseDate dates prop = Calendar.parseDate dates prop' := by
    rw [Calendar.parseDate,Calendar.parseDate,hvalue,hdate]
  rw [Calendar.applyProperty,Calendar.applyProperty,hname,hvalue,hparse]

theorem readLine_event (hline : Calendar.ReadsLine casing line) (hline' : Calendar.ReadsLine casing line')
    (h : SameEntry casing line line')
    (st : Calendar.EventState) : Calendar.readLine casing dates st line.render = Calendar.readLine casing dates st line'.render := by
  obtain ⟨prop,hprop,hparsed⟩ := hline
  obtain ⟨prop',hprop',hparsed'⟩ := hline'
  have hname : prop.name = prop'.name := by rw [hparsed.name,hparsed'.name,h.name]
  have hvalue : prop.value = prop'.value := by rw [hparsed.value,hparsed'.value,h.value]
  have hdate : prop.params.lookup (js "VALUE") = prop'.params.lookup (js "VALUE") :=
    Option.ext fun raw => (hparsed.params _ raw).trans ((h.date raw).trans (hparsed'.params _ raw).symm)
  rw [Calendar.readLine,Calendar.readLine,if_neg (render_ne_nil line),if_neg (render_ne_nil line'),hprop,hprop']
  dsimp only
  rw [hname,hvalue,applyEvent_congr hname hvalue hdate]

theorem foldlM_readLine (lines : List JsString) (st : Calendar.EventState) :
    lines.foldlM (Calendar.readLine casing dates) st = (lines.filter (· ≠ [])).foldlM (Calendar.readLine casing dates) st := by
  induction lines generalizing st with
  | nil => rfl
  | cons line lines ih =>
    by_cases hline : line = []
    · subst hline
      exact ih st
    · rw [List.filter_cons_of_pos (by simpa using hline),List.foldlM_cons,List.foldlM_cons]
      exact congrArg _ (funext fun st => ih st)

theorem readLines_event (h : List.Forall₂ (SameEntry casing) lines lines') (hlines : ∀ line ∈ lines, Calendar.ReadsLine casing line)
    (hlines' : ∀ line ∈ lines', Calendar.ReadsLine casing line) (st : Calendar.EventState) :
    (lines.map ContentLine.render).foldlM (Calendar.readLine casing dates) st =
      (lines'.map ContentLine.render).foldlM (Calendar.readLine casing dates) st := by
  induction h generalizing st with
  | nil => rfl
  | cons hsame _ ih =>
    obtain ⟨hline,hlines⟩ := List.forall_mem_cons.mp hlines
    obtain ⟨hline',hlines'⟩ := List.forall_mem_cons.mp hlines'
    rw [List.map_cons,List.map_cons,List.foldlM_cons,List.foldlM_cons,readLine_event hline hline' hsame]
    exact congrArg _ (funext fun st => ih hlines hlines' st)

/-- The same event, whatever else the lines have. -/
theorem parseICal_congr {text text' : JsString} (htext : Holds text lines) (htext' : Holds text' lines')
    (h : List.Forall₂ (SameEntry casing) lines lines') (hlines : ∀ line ∈ lines, Calendar.ReadsLine casing line)
    (hlines' : ∀ line ∈ lines', Calendar.ReadsLine casing line) :
    Calendar.parseICal casing dates text = Calendar.parseICal casing dates text' := by
  have hstate : (Calendar.unfoldLines text).foldlM (Calendar.readLine casing dates) .initial =
      (Calendar.unfoldLines text').foldlM (Calendar.readLine casing dates) .initial := by
    rw [foldlM_readLine,foldlM_readLine (Calendar.unfoldLines text')]
    rw [show (Calendar.unfoldLines text).filter (· ≠ []) = _ from htext,show (Calendar.unfoldLines text').filter (· ≠ []) = _ from htext']
    exact readLines_event h hlines hlines' _
  rw [Calendar.parseICal,Calendar.parseICal,hstate]

/-- A card's line is read as the grammar has it when it has no group, and no quoted value with a comma or a bare
semicolon; an event's when no quoted value has a colon or a semicolon, and no parameter two raw lists. Texts of such
lines are the same contact or event, whatever else their lines have. -/
theorem content_lines_iff (casing : CaseMapping) :
    (∀ line : ContentLine, line.Valid → (Contacts.ReadsLine casing line ↔ Contacts.Readable line)) ∧
    (∀ line : ContentLine, line.Valid → line.group = none → (Calendar.ReadsLine casing line ↔ Calendar.Readable casing line)) ∧
    (∀ (text text' : JsString) (lines lines' : List ContentLine), Holds text lines → Holds text' lines' →
      List.Forall₂ (SameDetail casing) lines lines' → (∀ line ∈ lines ++ lines', line.Valid ∧ Contacts.Readable line) →
        Contacts.parseVCard casing text = Contacts.parseVCard casing text') ∧
    ∀ (dates : DateParser) (text text' : JsString) (lines lines' : List ContentLine), Holds text lines → Holds text' lines' →
      List.Forall₂ (SameEntry casing) lines lines' →
      (∀ line ∈ lines ++ lines', line.Valid ∧ line.group = none ∧ Calendar.Readable casing line) →
        Calendar.parseICal casing dates text = Calendar.parseICal casing dates text' := by
  refine ⟨fun line h => Contacts.reads_iff h,fun line h hgroup => Calendar.reads_iff h hgroup,?_,?_⟩
  · intro text text' lines lines' htext htext' hsame hlines
    have hread (line : ContentLine) (hline : line ∈ lines ++ lines') : Contacts.ReadsLine casing line :=
      (Contacts.reads_iff (hlines line hline).1).mpr (hlines line hline).2
    exact parseVCard_congr htext htext' hsame (fun line hline => hread line (List.mem_append_left _ hline))
      fun line hline => hread line (List.mem_append_right _ hline)
  · intro dates text text' lines lines' htext htext' hsame hlines
    have hread (line : ContentLine) (hline : line ∈ lines ++ lines') : Calendar.ReadsLine casing line :=
      (Calendar.reads_iff (hlines line hline).1 (hlines line hline).2.1).mpr (hlines line hline).2.2
    exact parseICal_congr htext htext' hsame (fun line hline => hread line (List.mem_append_left _ hline))
      fun line hline => hread line (List.mem_append_right _ hline)

/-- `EMAIL;TYPE="x:y":a@b.c`. -/
def typedEmail : ContentLine := ⟨none,js "EMAIL",[⟨js "TYPE",[.quoted (js "x:y")]⟩],js "a@b.c"⟩

theorem typedEmail_valid : typedEmail.Valid where
  group := nofun
  name := ⟨by decide,by decide⟩
  params p hp := by
    obtain rfl := List.mem_singleton.mp hp
    refine ⟨⟨by decide,by decide⟩,List.cons_ne_nil _ _,fun v hv => ?_⟩
    obtain rfl := List.mem_singleton.mp hv
    exact fun c hc => List.all_eq_true.mp (by decide : (js "x:y").all isQuotable = true) c hc

theorem typed_email_read : Contacts.ReadsLine asciiCase typedEmail := by
  refine ((content_lines_iff asciiCase).1 typedEmail typedEmail_valid).mpr ⟨rfl,fun p hp v hv => ?_⟩
  obtain rfl := List.mem_singleton.mp hp
  obtain rfl := List.mem_singleton.mp hv
  exact ⟨by decide,by decide⟩

/-- `item1.EMAIL:a@b.c`. -/
def groupedEmail : ContentLine := ⟨some (js "item1"),js "EMAIL",[],js "a@b.c"⟩

/-- A line with a group is none that the card knows: the contact has no address. -/
theorem grouped_email_misread : groupedEmail.Valid ∧ ¬Contacts.ReadsLine asciiCase groupedEmail ∧
    (Contacts.parseVCard asciiCase (js "UID:1\nitem1.EMAIL:a@b.c")).map (·.emails) = some [] ∧
    (Contacts.parseVCard asciiCase (js "UID:1\nEMAIL:a@b.c")).map (·.emails) = some [⟨js "a@b.c",none⟩] := by
  refine ⟨⟨?_,⟨by decide,by decide⟩,List.forall_mem_nil _⟩,?_,by decide,by decide⟩
  · intro g hg
    cases hg
    exact ⟨by decide,by decide⟩
  · rintro ⟨prop,hprop,hparsed⟩
    have hname : (Contacts.parseProperty asciiCase groupedEmail.render).map (·.name) = some (js "ITEM1.EMAIL") := by decide
    rw [hprop,Option.map_some,hparsed.name] at hname
    exact absurd hname (by decide)

end Events
end JustMail.Dav
