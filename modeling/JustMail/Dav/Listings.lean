import JustMail.Calendar.ICalDates
import JustMail.Dav.InPlace

/-! `CalendarService.list` and `ContactsService.list`: what one text that cannot be read does to the others of
its collection. -/
namespace JustMail.Dav
open Foundation

section Model

structure CalendarEvent where
  id : JsString
  href : JsString
  summary : JsString
  startsAt : JsString
  endsAt : JsString
  allDay : Bool
  location : Option JsString
  description : Option JsString

structure Contact where
  id : JsString
  href : JsString
  fullName : JsString
  emails : List Contacts.VCardEmail
  phones : List Contacts.VCardPhone
  organization : Option JsString
  note : Option JsString

def toEvent (href : JsString) (ical : Calendar.ICalEvent) : CalendarEvent :=
  ⟨ical.uid,href,ical.summary,ical.startsAt,ical.endsAt,ical.allDay,ical.location,ical.description⟩

def toContact (href : JsString) (card : Contacts.VCard) : Contact :=
  ⟨card.uid,href,card.fullName,card.emails,card.phones,card.organization,card.note⟩

variable {κ Obj Input Entry : Type}

/-- The loop over the resources. -/
def collectEntries (f : ObjectFormat Obj Input) (entry : JsString → Obj → Entry) :
    List (JsString × JsString) → Except DavError (List Entry)
  | [] => .ok []
  | (href,body) :: rest =>
    match f.read body with
    | .error e => .error (.unreadable e)
    | .ok none => collectEntries f entry rest
    | .ok (some o) => (collectEntries f entry rest).map (entry href o :: ·)

variable [DecidableEq κ] (cm : CaseMapping) (dates : DateParser) (now : Instant) (server : DavServer κ)

/-- `list`: the entries of what has been listed, sorted. -/
def listObjects (f : ObjectFormat Obj Input) (entry : JsString → Obj → Entry) (before : Entry → Entry → Bool) (user : JsString)
    (s : Resources κ) : Except DavError (List Entry) := do
  let listed ← listResources cm server f.created f.suffix user s
  let entries ← collectEntries f entry listed
  pure (entries.mergeSort before)

/-- The sort is by `localeCompare`, whose order is left open. -/
def listEvents (localeCompare : JsString → JsString → Int) : JsString → Resources κ → Except DavError (List CalendarEvent) :=
  listObjects cm server (eventFormat cm dates now) toEvent fun a b => localeCompare a.startsAt b.startsAt ≤ 0

def listContacts (localeCompare : JsString → JsString → Int) : JsString → Resources κ → Except DavError (List Contact) :=
  listObjects cm server (cardFormat cm) toContact fun a b => localeCompare a.fullName b.fullName ≤ 0

/-- One entry for each body that can be read as an object. -/
def entriesOf (f : ObjectFormat Obj Input) (entry : JsString → Obj → Entry) (listed : List (JsString × JsString)) : List Entry :=
  listed.filterMap fun res => match f.read res.2 with
    | .ok (some o) => some (entry res.1 o)
    | _ => none

/-- No resource hides another one from the list, or from the search by uid of `update` and `remove`. -/
structure HidesNothing (f : ObjectFormat Obj Input) (entry : JsString → Obj → Entry) (listed : List (JsString × JsString))
    (result : Except DavError (List Entry)) : Prop where
  reads : ∀ res ∈ listed, ∃ o, f.read res.2 = .ok o
  lists : ∃ entries, result = .ok entries ∧ entries.Perm (entriesOf f entry listed)
  finds : ∀ res ∈ listed, ∀ o, f.read res.2 = .ok (some o) →
    ∃ found ∈ listed, findResource f (f.uid o) listed = .ok found.1 ∧ ∃ o', f.read found.2 = .ok (some o') ∧ f.uid o' = f.uid o

end Model

section Reading
variable {κ Obj Input Entry : Type} [DecidableEq κ] {cm : CaseMapping} {server : DavServer κ} {f : ObjectFormat Obj Input}
  {entry : JsString → Obj → Entry} {before : Entry → Entry → Bool} {user : JsString} {s : Resources κ}
    {listed : List (JsString × JsString)}

theorem collectEntries_ok (h : ∀ res ∈ listed, ∃ o, f.read res.2 = .ok o) :
    collectEntries f entry listed = .ok (entriesOf f entry listed) := by
  induction listed with
  | nil => rfl
  | cons res rest ih =>
    obtain ⟨href,body⟩ := res
    obtain ⟨⟨o,ho⟩,hrest⟩ := List.forall_mem_cons.mp h
    have ho' : f.read body = .ok o := ho
    rw [collectEntries,ho',entriesOf,List.filterMap_cons]
    cases o with
    | none =>
      simp only [ho']
      exact ih hrest
    | some o =>
      simp only [ho']
      rw [ih hrest]
      rfl

theorem findResource_of_reads (h : ∀ res ∈ listed, ∃ o, f.read res.2 = .ok o) {res : JsString × JsString} (hmem : res ∈ listed) {o : Obj}
    (hread : f.read res.2 = .ok (some o)) : ∃ href, findResource f (f.uid o) listed = .ok href := by
  induction listed with
  | nil => cases hmem
  | cons first rest ih =>
    obtain ⟨href,body⟩ := first
    obtain ⟨⟨p,hp⟩,hrest⟩ := List.forall_mem_cons.mp h
    have hp' : f.read body = .ok p := hp
    rw [findResource,hp']
    rcases List.mem_cons.mp hmem with rfl | hmem
    · obtain rfl : p = some o := Except.ok.inj (hp.symm.trans hread)
      exact ⟨href,if_pos rfl⟩
    · cases p with
      | none => exact ih hrest hmem
      | some p =>
        dsimp only
        split
        · exact ⟨href,rfl⟩
        · exact ih hrest hmem

theorem hidesNothing_iff (hlist : listResources cm server f.created f.suffix user s = .ok listed) :
    HidesNothing f entry listed (listObjects cm server f entry before user s) ↔ ∀ res ∈ listed, ∃ o, f.read res.2 = .ok o := by
  refine ⟨fun h => h.reads,fun h => ⟨h,⟨_,?_,List.mergeSort_perm _ before⟩,fun res hres o ho => ?_⟩⟩
  · rw [listObjects,hlist]
    change (collectEntries f entry listed >>= fun entries => pure (entries.mergeSort before)) = _
    rw [collectEntries_ok h]
    rfl
  · obtain ⟨href,hfind⟩ := findResource_of_reads h hres ho
    obtain ⟨body,o',hmem,hread,huid⟩ := findResource_ok hfind
    exact ⟨(href,body),hmem,hfind,o',hread,huid⟩

/-- In a calendar every text must have dates that are dates; in an address book any text will do. -/
theorem malformed_hides_nothing_iff (cm : CaseMapping) (dates : DateParser) (now : Instant) (localeCompare : JsString → JsString → Int)
    (calendar contacts : DavServer κ) (user : JsString) (s : Resources κ) :
    (∀ listed, listResources cm calendar [201,405] (js ".ics") user s = .ok listed →
      (HidesNothing (eventFormat cm dates now) toEvent listed (listEvents cm dates now calendar localeCompare user s) ↔
        ∀ res ∈ listed, Calendar.DatesValid cm dates false (Calendar.unfoldLines res.2))) ∧
    ∀ listed, listResources cm contacts [201,405,409] (js ".vcf") user s = .ok listed →
      HidesNothing (cardFormat cm) toContact listed (listContacts cm contacts localeCompare user s) := by
  refine ⟨fun listed hlist => ?_,fun listed hlist => ?_⟩
  · refine (hidesNothing_iff (f := eventFormat cm dates now) hlist).trans (forall_congr' fun res => imp_congr_right fun _ => ?_)
    exact Calendar.parseICal_ok_iff res.2
  · exact (hidesNothing_iff (f := cardFormat cm) hlist).mpr fun res _ => ⟨_,rfl⟩

def beside (text : JsString) : Resources Bool := ⟨[(false,text),(true,oldEvent)],(by decide : [false,true].Nodup)⟩

def listedBeside (text : JsString) : List (JsString × JsString) := [(exampleHref false false,text),(exampleHref false true,oldEvent)]

theorem listResources_beside (text : JsString) :
    listResources asciiCase (exampleServer false) [201,405] (js ".ics") exampleUser (beside text) = .ok (listedBeside text) := by
  have hurl : ¬(exampleServer false).collectionUrl exampleUser = none := by decide +kernel
  have hhrefs : (exampleServer false).hrefs asciiCase (js ".ics") (beside text) = [exampleHref false false,exampleHref false true] := by
    change [trim (exampleHref false false),trim (exampleHref false true)].filter _ = _
    decide +kernel
  have hget (named : Bool) : (exampleServer false).get (beside text) (resolveHref (exampleServer false).origin (exampleHref false named)) =
      ((beside text).lookup named).map Prod.snd := by
    have htrim : trim ((exampleServer false).href named) = exampleHref false named := by cases named <;> decide +kernel
    have hnames := (exampleServer false).names_href named
    rw [htrim] at hnames
    rw [DavServer.get,hnames]
    rfl
  rw [listResources,if_neg hurl,if_pos ⟨by decide,rfl⟩,hhrefs]
  simp only [List.filterMap_cons,hget]
  rfl

/-- Text that is no event at all. -/
theorem stray_text_hides_nothing : HidesNothing (eventFormat asciiCase isoParser .epoch) toEvent (listedBeside (js "not a calendar"))
    (listEvents asciiCase isoParser .epoch (exampleServer false) (fun _ _ => 0) exampleUser (beside (js "not a calendar"))) :=
  ((malformed_hides_nothing_iff asciiCase isoParser .epoch (fun _ _ => 0) (exampleServer false) (exampleServer true) exampleUser
    (beside (js "not a calendar"))).1 _ (listResources_beside _)).mpr
      (List.forall_mem_cons.mpr ⟨by decide +kernel,List.forall_mem_singleton.mpr (by decide +kernel)⟩)

def brokenEvent : JsString :=
  js "BEGIN:VCALENDAR\r\nBEGIN:VEVENT\r\nUID:broken\r\nDTSTART;VALUE=DATE:20260599\r\nEND:VEVENT\r\nEND:VCALENDAR\r\n"

/-- It takes the whole calendar with it. -/
theorem broken_event_hides_calendar :
    listEvents asciiCase isoParser .epoch (exampleServer false) (fun _ _ => 0) exampleUser (beside brokenEvent) =
        .error (.unreadable (.rangeError "Invalid time value")) ∧
      ¬∀ cm dates now localeCompare (server : DavServer Bool) user s listed,
        listResources cm server [201,405] (js ".ics") user s = .ok listed →
          HidesNothing (eventFormat cm dates now) toEvent listed (listEvents cm dates now server localeCompare user s) := by
  have hread : Calendar.parseICal asciiCase isoParser brokenEvent = .error (.rangeError "Invalid time value") := by decide +kernel
  have hlist : listEvents asciiCase isoParser .epoch (exampleServer false) (fun _ _ => 0) exampleUser (beside brokenEvent) =
      .error (.unreadable (.rangeError "Invalid time value")) := by
    rw [listEvents,listObjects,show (eventFormat asciiCase isoParser .epoch).created = [201,405] from rfl,
      show (eventFormat asciiCase isoParser .epoch).suffix = js ".ics" from rfl,listResources_beside]
    have hcollect : collectEntries (eventFormat asciiCase isoParser .epoch) toEvent (listedBeside brokenEvent) =
        .error (.unreadable (.rangeError "Invalid time value")) := by
      rw [listedBeside,collectEntries,
        show (eventFormat asciiCase isoParser .epoch).read brokenEvent = .error (.rangeError "Invalid time value") from hread]
    simp only [bind,Except.bind,hcollect]
  refine ⟨hlist,fun h => ?_⟩
  obtain ⟨entries,hentries,-⟩ := (h asciiCase isoParser .epoch (fun _ _ => 0) (exampleServer false) exampleUser (beside brokenEvent) _
    (listResources_beside brokenEvent)).lists
  rw [hlist] at hentries
  cases hentries

end Reading
end JustMail.Dav
