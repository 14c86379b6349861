import JustMail.Contacts.VCardRoundTrip
import JustMail.Calendar.ICalRoundTrip
import JustMail.Dav.Transport
import JustMail.Foundation.IpAddress
import JustMail.Foundation.KeyedTable

/-! `contacts.service.ts` and `calendar.service.ts` over `carddav.client.ts` and `caldav.client.ts`: an object is
looked for by its uid among all that the server lists, and written to an href that is made from the uid. -/
namespace JustMail.Dav
open Foundation

section Model

/-- Unreserved marks of `encodeURIComponent`. -/
def isUriMark (b : UInt8) : Bool :=
  (48 ≤ b && b ≤ 57) || (65 ≤ b && b ≤ 90) || (97 ≤ b && b ≤ 122) || b == 33 || (39 ≤ b && b ≤ 42) ||
    b == 45 || b == 46 || b == 95 || b == 126

def percentByte (b : UInt8) : JsString := [PERCENT,asciiUpper (hexUnit (b.toNat/16)),asciiUpper (hexUnit (b.toNat%16))]

/-- `encodeURIComponent`, which throws on half a surrogate pair. -/
def encodeURIComponent (s : JsString) : Option JsString :=
  if wellFormed s then
    some (((scalars s).flatMap String.utf8EncodeChar).flatMap fun b => if isUriMark b then [b.toUInt16] else percentByte b)
  else none

/-- `/^https?:\/\//i.test(href)`. -/
def isAbsolute (href : JsString) : Bool :=
  decide (js "http://" <+: href.map asciiLower) || decide (js "https://" <+: href.map asciiLower)

def resolveHref (origin href : JsString) : JsString := if isAbsolute href then href else origin ++ href

/-- The objects of a collection; what names one is left open. -/
abbrev Resources (κ : Type) := Table (Prod.fst : κ × JsString → κ)

inductive DavError where
  | notFound
  | failed
  | malformedUri
  | unreadable (e : Calendar.JsError)
  deriving DecidableEq

/-- The configured URL and the server behind it: the resource that a URL names, the href by which a listing names a
resource, the answers to MKCOL or MKCALENDAR and to PROPFIND, and the other requests that go through. A listing comes in
any order. -/
structure DavServer (κ : Type) where
  base : JsString
  origin : JsString
  collection : JsString
  pathname : JsString → JsString
  names : JsString → κ
  href : κ → JsString
  make : Nat
  propfind : Nat
  order : List (κ × JsString) → List (κ × JsString)
  serves : κ → Bool
  accepts : Resources κ → κ → JsString → Bool
  deletes : κ → Bool
  order_perm (rows : List (κ × JsString)) : (order rows).Perm rows
  names_href (k : κ) : names (resolveHref origin (trim (href k))) = k

/-- A kind of object: its suffix, the answers that make sure of its collection, and how it is read, made from a request
and written. `agrees` tells that an object that has been read has the content of one that was asked for. -/
structure ObjectFormat (Obj Input : Type) where
  suffix : JsString
  created : List Nat
  read : JsString → Except Calendar.JsError (Option Obj)
  uid : Obj → JsString
  object : JsString → Input → Obj
  write : Obj → JsString
  agrees : Obj → Obj → Prop
  uid_object (u : JsString) (input : Input) : uid (object u input) = u
  uid_of_agrees {o r : Obj} : agrees o r → uid o = uid r

/-- The text that the server stores for the body of a PUT. -/
def sentText (text : JsString) : JsString := (scalars text).flatMap utf16

variable {κ Obj Input : Type} [DecidableEq κ] (cm : CaseMapping) (server : DavServer κ)

def DavServer.collectionUrl (user : JsString) : Option JsString := do
  let user ← encodeURIComponent user
  let collection ← encodeURIComponent server.collection
  some (server.base ++ js "/" ++ user ++ js "/" ++ collection ++ js "/")

def DavServer.putHref (suffix user uid : JsString) : Option JsString := do
  let url ← server.collectionUrl user
  let uid ← encodeURIComponent uid
  some (url ++ uid ++ suffix)

/-- The body of a GET that is answered with a success. -/
def DavServer.get (s : Resources κ) (url : JsString) : Option JsString :=
  if server.serves (server.names url) then (s.lookup (server.names url)).map Prod.snd else none

/-- `extractHrefs` of what PROPFIND answers. -/
def DavServer.hrefs (suffix : JsString) (s : Resources κ) : List JsString :=
  ((server.order s.rows).map fun r => trim (server.href r.1)).filter fun href => decide (suffix <:+ cm.toLowerCase href)

/-- `listCards` and `listEvents`. -/
def listResources (created : List Nat) (suffix user : JsString) (s : Resources κ) : Except DavError (List (JsString × JsString)) :=
  if server.collectionUrl user = none then .error .malformedUri
  else if server.make ∈ created ∧ server.propfind = 207 then
    .ok ((server.hrefs cm suffix s).filterMap fun href => (server.get s (resolveHref server.origin href)).map (href,·))
  else .error .failed

/-- `putCard` and `putEvent`. -/
def putResource (suffix user uid body : JsString) (s : Resources κ) : Except DavError (JsString × Resources κ) :=
  match server.putHref suffix user uid with
  | none => .error .malformedUri
  | some href =>
    if server.accepts s (server.names href) body then .ok (server.pathname href,s.upsert (server.names href,sentText body))
    else .error .failed

/-- `deleteCard` and `deleteEvent`. -/
def deleteResource (href : JsString) (s : Resources κ) : Except DavError (Resources κ) :=
  let k := server.names (resolveHref server.origin href)
  if server.deletes k then .ok (s.deleteWhere fun r => decide (r.1 = k)) else .error .failed

variable (f : ObjectFormat Obj Input)

/-- `findCard` and `findEvent`, over what has been listed. -/
def findResource (id : JsString) : List (JsString × JsString) → Except DavError JsString
  | [] => .error .notFound
  | (href,body) :: rest =>
    match f.read body with
    | .error e => .error (.unreadable e)
    | .ok none => findResource id rest
    | .ok (some o) => if f.uid o = id then .ok href else findResource id rest

/-- `update`: what it finds is not used. -/
def updateResource (user id : JsString) (input : Input) (s : Resources κ) : Except DavError ((JsString × Obj) × Resources κ) := do
  let listed ← listResources cm server f.created f.suffix user s
  let _existing ← findResource f id listed
  let object := f.object id input
  let (href,s') ← putResource server f.suffix user id (f.write object) s
  pure ((href,object),s')

/-- `remove`. -/
def removeResource (user id : JsString) (s : Resources κ) : Except DavError (Resources κ) := do
  let listed ← listResources cm server f.created f.suffix user s
  let existing ← findResource f id listed
  deleteResource server existing s

end Model

section Steps
variable {κ Obj Input : Type} [DecidableEq κ] {cm : CaseMapping} {server : DavServer κ} {f : ObjectFormat Obj Input}
  {created : List Nat} {user id suffix href : JsString} {input : Input} {s s' : Resources κ} {listed : List (JsString × JsString)} {k : κ}

def Carries (f : ObjectFormat Obj Input) (id : JsString) (s : Resources κ) (k : κ) : Prop :=
  ∃ body o, s.lookup k = some (k,body) ∧ f.read body = .ok (some o) ∧ f.uid o = id

/-- A listing has the resources with the suffix whose GET succeeds. -/
def Listed (cm : CaseMapping) (server : DavServer κ) (suffix : JsString) (k : κ) : Prop :=
  (suffix <:+ cm.toLowerCase (trim (server.href k))) ∧ server.serves k = true

theorem mem_listed (h : listResources cm server created suffix user s = .ok listed) {entry : JsString × JsString} :
    entry ∈ listed ↔ ∃ k, entry.1 = trim (server.href k) ∧ Listed cm server suffix k ∧ s.lookup k = some (k,entry.2) := by
  unfold listResources at h
  split at h
  · cases h
  · split at h
    · cases h
      obtain ⟨href,body⟩ := entry
      simp only [List.mem_filterMap,DavServer.hrefs,List.mem_filter,List.mem_map,(server.order_perm s.rows).mem_iff,decide_eq_true_eq]
      constructor
      · rintro ⟨_,⟨⟨r,hr,rfl⟩,hsuffix⟩,hget⟩
        obtain ⟨body',hbody,heq⟩ := Option.map_eq_some_iff.mp hget
        cases heq
        rw [DavServer.get,server.names_href,Table.lookup_of_mem hr] at hbody
        split at hbody
        · rename_i hserves
          cases hbody
          exact ⟨r.1,rfl,⟨hsuffix,hserves⟩,Table.lookup_of_mem hr⟩
        · cases hbody
      · rintro ⟨k,rfl,⟨hsuffix,hserves⟩,hlookup⟩
        refine ⟨_,⟨⟨(k,body),(Table.lookup_eq_some.mp hlookup).1,rfl⟩,hsuffix⟩,?_⟩
        rw [DavServer.get,server.names_href,if_pos hserves,hlookup]
        rfl
    · cases h

theorem findResource_ok (h : findResource f id listed = .ok href) :
    ∃ body o, (href,body) ∈ listed ∧ f.read body = .ok (some o) ∧ f.uid o = id := by
  induction listed with
  | nil => cases h
  | cons entry rest ih =>
    obtain ⟨href',body⟩ := entry
    have hrest (h : findResource f id rest = .ok href) :
        ∃ body' o, (href,body') ∈ (href',body) :: rest ∧ f.read body' = .ok (some o) ∧ f.uid o = id := by
      obtain ⟨body',o,hmem,hread⟩ := ih h
      exact ⟨body',o,List.mem_cons_of_mem _ hmem,hread⟩
    rw [findResource] at h
    split at h
    · cases h
    · exact hrest h
    · rename_i o hread
      split at h
      · rename_i hid
        cases h
        exact ⟨body,o,List.mem_cons_self,hread,hid⟩
      · exact hrest h

theorem findResource_ne_notFound {entry : JsString × JsString} {o : Obj} (hmem : entry ∈ listed) (hread : f.read entry.2 = .ok (some o))
    (hid : f.uid o = id) : findResource f id listed ≠ .error .notFound := by
  induction listed with
  | nil => cases hmem
  | cons first rest ih =>
    obtain ⟨href',body⟩ := first
    rw [findResource]
    rcases List.mem_cons.mp hmem with rfl | hrest
    · rw [hread]
      simp [hid]
    · split
      · simp
      · exact ih hrest
      · split
        · simp
        · exact ih hrest

/-- The text that an update leaves at its href. -/
def requestText (f : ObjectFormat Obj Input) (id : JsString) (input : Input) : JsString := sentText (f.write (f.object id input))

theorem updateResource_ok {result : JsString × Obj} (h : updateResource cm server f user id input s = .ok (result,s')) :
    ∃ listed existing href, listResources cm server f.created f.suffix user s = .ok listed ∧ findResource f id listed = .ok existing ∧
      server.putHref f.suffix user id = some href ∧ s' = s.upsert (server.names href,requestText f id input) := by
  unfold updateResource at h
  cases hlist : listResources cm server f.created f.suffix user s with
  | error e =>
    rw [hlist] at h
    cases h
  | ok listed =>
    rw [hlist] at h
    cases hfind : findResource f id listed with
    | error e =>
      simp only [hfind,bind,Except.bind] at h
      cases h
    | ok existing =>
      simp only [hfind,bind,Except.bind,putResource] at h
      cases hhref : server.putHref f.suffix user id with
      | none =>
        rw [hhref] at h
        cases h
      | some href =>
        rw [hhref] at h
        dsimp only at h
        split at h
        · cases h
        · rename_i p hput
          split at hput
          · cases hput
            exact ⟨listed,existing,href,rfl,hfind,rfl,(Prod.mk.inj (Except.ok.inj h)).2.symm⟩
          · cases hput

theorem updateResource_of (input : Input) {existing : JsString} (hlist : listResources cm server f.created f.suffix user s = .ok listed)
    (hfind : findResource f id listed = .ok existing) (hhref : server.putHref f.suffix user id = some href)
    (haccepts : server.accepts s (server.names href) (f.write (f.object id input)) = true) :
    updateResource cm server f user id input s =
      .ok ((server.pathname href,f.object id input),s.upsert (server.names href,requestText f id input)) := by
  simp only [updateResource,hlist,hfind,putResource,hhref,haccepts,bind,Except.bind]
  rfl

/-- A removal takes away the one resource that carries the uid. -/
theorem removed_of_only (user : JsString) (honly : ∀ k', Carries f id s k' ↔ k' = k) (hlisted : Listed cm server f.suffix k)
    (hserver : ∃ s₀ listed, listResources cm server f.created f.suffix user s₀ = .ok listed) :
    removeResource cm server f user id s ≠ .error .notFound ∧
    ∀ s', removeResource cm server f user id s = .ok s' → ∀ k', ¬Carries f id s' k' := by
  obtain ⟨listed,hlist⟩ : ∃ listed, listResources cm server f.created f.suffix user s = .ok listed := by
    obtain ⟨s₀,listed,h⟩ := hserver
    unfold listResources at h ⊢
    split at h
    · cases h
    · rename_i hurl
      split at h
      · rename_i hlists
        rw [if_neg hurl,if_pos hlists]
        exact ⟨_,rfl⟩
      · cases h
  obtain ⟨body,o,hlookup,hread,hid⟩ := (honly k).mpr rfl
  have hmem : (trim (server.href k),body) ∈ listed := (mem_listed hlist).mpr ⟨k,rfl,hlisted,hlookup⟩
  have hfound := findResource_ne_notFound hmem hread hid
  simp only [removeResource,hlist,bind,Except.bind]
  cases hfind : findResource f id listed with
  | error e =>
    refine ⟨fun h => hfound ?_,fun s' h => by cases h⟩
    rw [hfind]
    exact congrArg Except.error (Except.error.inj h)
  | ok existing =>
    obtain ⟨body',o',hmem',hread',hid'⟩ := findResource_ok hfind
    obtain ⟨k',hhref,-,hlookup'⟩ := (mem_listed hlist).mp hmem'
    obtain rfl : k' = k := (honly k').mp ⟨body',o',hlookup',hread',hid'⟩
    obtain rfl : existing = trim (server.href k') := hhref
    simp only [deleteResource,server.names_href]
    split
    · refine ⟨nofun,fun s' h k'' hcarries => ?_⟩
      cases h
      obtain ⟨body'',o'',hlookup'',hread'',hid''⟩ := hcarries
      rw [Table.lookup_deleteWhere,Option.filter_eq_some_iff] at hlookup''
      obtain rfl : k'' = k' := (honly k'').mp ⟨body'',o'',hlookup''.1,hread'',hid''⟩
      simp at hlookup''
    · exact ⟨nofun,nofun⟩

end Steps

section Placement
variable {κ Obj Input : Type} [DecidableEq κ] {cm : CaseMapping} {server : DavServer κ} {f : ObjectFormat Obj Input}
  {user id : JsString} {input : Input} {s s' : Resources κ} {k : κ} {result : JsString × Obj}

/-- `s'` has the request in the place of the one resource that carried the uid in `s`. -/
structure InPlace (cm : CaseMapping) (server : DavServer κ) (f : ObjectFormat Obj Input) (user id : JsString) (input : Input)
    (s s' : Resources κ) (k : κ) : Prop where
  only : ∀ k', Carries f id s' k' ↔ k' = k
  content : ∃ body o, s'.lookup k = some (k,body) ∧ f.read body = .ok (some o) ∧ f.agrees o (f.object id input)
  others : ∀ k', k' ≠ k → s'.lookup k' = s.lookup k'
  found : removeResource cm server f user id s' ≠ .error .notFound
  removed : ∀ s'', removeResource cm server f user id s' = .ok s'' → ∀ k', ¬Carries f id s'' k'

/-- What is written of the request is read as the request. -/
def ReadsBack (f : ObjectFormat Obj Input) (id : JsString) (input : Input) : Prop :=
  ∃ o, f.read (requestText f id input) = .ok (some o) ∧ f.agrees o (f.object id input)

/-- The href that is made from the uid names the resource. -/
def Placed (server : DavServer κ) (suffix user id : JsString) (k : κ) : Prop :=
  ∃ href, server.putHref suffix user id = some href ∧ server.names href = k

/-- There is nothing to do: the text is at its href already, and the resource has the content of the request. -/
def Standing (server : DavServer κ) (f : ObjectFormat Obj Input) (user id : JsString) (input : Input) (s : Resources κ) (k : κ) : Prop :=
  (∃ k₀, Placed server f.suffix user id k₀ ∧ s.lookup k₀ = some (k₀,requestText f id input)) ∧
  ∃ body o, s.lookup k = some (k,body) ∧ f.read body = .ok (some o) ∧ f.agrees o (f.object id input)

omit [DecidableEq κ] in
theorem placed_iff {href : JsString} (h : server.putHref f.suffix user id = some href) :
    Placed server f.suffix user id k ↔ server.names href = k := by
  constructor
  · rintro ⟨href',hhref',hk⟩
    rw [h] at hhref'
    cases hhref'
    exact hk
  · exact fun hk => ⟨href,h,hk⟩

theorem inPlace_iff (hone : ∀ k', Carries f id s k' ↔ k' = k) (h : updateResource cm server f user id input s = .ok (result,s')) :
    InPlace cm server f user id input s s' k ↔
      (Placed server f.suffix user id k ∧ ReadsBack f id input) ∨ Standing server f user id input s k := by
  obtain ⟨listed,existing,href,hlist,hfind,hhref,rfl⟩ := updateResource_ok h
  have hlookup (k' : κ) : (s.upsert (server.names href,requestText f id input)).lookup k' =
      if k' = server.names href then some (server.names href,requestText f id input) else s.lookup k' := Table.lookup_upsert _ _ _
  have hlisted : Listed cm server f.suffix k := by
    obtain ⟨body,o,hmem,hread,hid⟩ := findResource_ok hfind
    obtain ⟨k',-,hk',hbody⟩ := (mem_listed hlist).mp hmem
    exact (hone k').mp ⟨body,o,hbody,hread,hid⟩ ▸ hk'
  constructor
  · intro hin
    obtain ⟨body,o,hbody,hread,hagrees⟩ := hin.content
    rw [hlookup] at hbody
    by_cases hk : k = server.names href
    · rw [if_pos hk] at hbody
      cases hbody
      exact .inl ⟨(placed_iff hhref).mpr hk.symm,o,hread,hagrees⟩
    · rw [if_neg hk] at hbody
      refine .inr ⟨⟨server.names href,(placed_iff hhref).mpr rfl,?_⟩,body,o,hbody,hread,hagrees⟩
      rw [← hin.others _ (Ne.symm hk),hlookup,if_pos rfl]
  · intro hcond
    have hsame (k' : κ) (hk' : k' ≠ k) : (s.upsert (server.names href,requestText f id input)).lookup k' = s.lookup k' := by
      rw [hlookup]
      split
      · rename_i heq
        rcases hcond with ⟨hk,-⟩ | ⟨⟨k₀,hk₀,hstored⟩,-⟩
        · exact absurd (heq.trans ((placed_iff hhref).mp hk)) hk'
        · obtain rfl := (placed_iff hhref).mp hk₀
          rw [heq,hstored]
      · rfl
    have hcontent : ∃ body o, (s.upsert (server.names href,requestText f id input)).lookup k = some (k,body) ∧
        f.read body = .ok (some o) ∧ f.agrees o (f.object id input) := by
      rcases hcond with ⟨hk,o,hread,hagrees⟩ | ⟨⟨k₀,hk₀,hstored⟩,body,o,hbody,hread,hagrees⟩
      · obtain rfl := (placed_iff hhref).mp hk
        exact ⟨_,o,by rw [hlookup,if_pos rfl],hread,hagrees⟩
      · refine ⟨body,o,?_,hread,hagrees⟩
        obtain rfl := (placed_iff hhref).mp hk₀
        rw [hlookup]
        split
        · rename_i heq
          rw [← hstored,← heq,hbody]
        · exact hbody
    have honly (k' : κ) : Carries f id (s.upsert (server.names href,requestText f id input)) k' ↔ k' = k := by
      by_cases hk' : k' = k
      · subst hk'
        obtain ⟨body,o,hbody,hread,hagrees⟩ := hcontent
        exact iff_of_true ⟨body,o,hbody,hread,(f.uid_of_agrees hagrees).trans (f.uid_object id input)⟩ rfl
      · rw [← hone k',Carries,hsame k' hk',Carries]
    obtain ⟨hfound,hremoved⟩ := removed_of_only user honly hlisted ⟨s,listed,hlist⟩
    exact ⟨honly,hcontent,hsame,hfound,hremoved⟩

structure CalendarEventRequest where
  summary : JsString
  startsAt : JsString
  endsAt : JsString
  allDay : Bool
  location : Option JsString
  description : Option JsString

def toICal (uid : JsString) (input : CalendarEventRequest) : Calendar.ICalEvent :=
  ⟨uid,input.summary,input.startsAt,input.endsAt,input.allDay,input.location,input.description⟩

variable {κ : Type} [DecidableEq κ] (cm : CaseMapping) (dates : DateParser) (now : Instant) (server : DavServer κ)

/-- Cards agree up to line breaks and empty text, the labels as the format has them. -/
def cardFormat : ObjectFormat Contacts.VCard Contacts.ContactRequest where
  suffix := js ".vcf"
  created := [201,405,409]
  read body := .ok (Contacts.parseVCard cm body)
  uid card := card.uid
  object := Contacts.toVCard
  write := Contacts.serializeVCard
  agrees card asked := Contacts.canonical card = Contacts.canonical (Contacts.intended cm asked.uid
    ⟨asked.fullName,asked.emails,asked.phones,asked.organization,asked.note⟩)
  uid_object _ _ := rfl
  uid_of_agrees h := by
    have huid := congrArg Contacts.VCard.uid h
    exact huid

/-- Events agree up to empty text and what the format keeps of an instant. -/
def eventFormat : ObjectFormat Calendar.ICalEvent CalendarEventRequest where
  suffix := js ".ics"
  created := [201,405]
  read := Calendar.parseICal cm dates
  uid event := event.uid
  object := toICal
  write := Calendar.serializeICal dates now
  agrees event asked := ∃ starts ends, dates.parse asked.startsAt = some starts ∧ dates.parse asked.endsAt = some ends ∧
    event = { asked with
      startsAt := toISOString (Calendar.kept asked.allDay starts), endsAt := toISOString (Calendar.kept asked.allDay ends),
      location := asked.location.bind Calendar.orNull, description := asked.description.bind Calendar.orNull }
  uid_object _ _ := rfl
  uid_of_agrees h := by
    obtain ⟨_,_,-,-,rfl⟩ := h
    rfl

def updateContact : JsString → JsString → Contacts.ContactRequest → Resources κ →
    Except DavError ((JsString × Contacts.VCard) × Resources κ) :=
  updateResource cm server (cardFormat cm)

def updateEvent : JsString → JsString → CalendarEventRequest → Resources κ →
    Except DavError ((JsString × Calendar.ICalEvent) × Resources κ) :=
  updateResource cm server (eventFormat cm dates now)

theorem card_readsBack (cm : CaseMapping) {uid : JsString} (hu : Contacts.isUuid uid = true) {c : Contacts.ContactRequest} (hv : c.Valid)
    (hc : c.Clean) (hwell : wellFormed (Contacts.serializeVCard (Contacts.toVCard uid c)) = true) : ReadsBack (cardFormat cm) uid c := by
  refine ⟨Contacts.storedCard cm uid c,?_,Contacts.canonical_storedCard cm uid c⟩
  have hsent : requestText (cardFormat cm) uid c = Contacts.serializeVCard (Contacts.toVCard uid c) := (flatMap_scalars_iff _).mpr hwell
  rw [hsent]
  exact congrArg Except.ok (Contacts.parseVCard_serializeVCard cm hu hv hc)

theorem update_in_place_iff (cm : CaseMapping) (dates : DateParser) (now : Instant) (server : DavServer κ) (user id : JsString)
    (s s' : Resources κ) (k : κ) :
    (∀ input result, (∀ k', Carries (cardFormat cm) id s k' ↔ k' = k) → updateContact cm server user id input s = .ok (result,s') →
      (InPlace cm server (cardFormat cm) user id input s s' k ↔
        (Placed server (js ".vcf") user id k ∧ ReadsBack (cardFormat cm) id input) ∨ Standing server (cardFormat cm) user id input s k)) ∧
    (∀ input result, (∀ k', Carries (eventFormat cm dates now) id s k' ↔ k' = k) →
      updateEvent cm dates now server user id input s = .ok (result,s') →
      (InPlace cm server (eventFormat cm dates now) user id input s s' k ↔
        (Placed server (js ".ics") user id k ∧ ReadsBack (eventFormat cm dates now) id input) ∨
          Standing server (eventFormat cm dates now) user id input s k)) :=
  ⟨fun _ _ => inPlace_iff,fun _ _ => inPlace_iff⟩

def exampleUser : JsString := js "ada@b.example"

/-- A resource whose name is the uid, or one that another client has named. -/
def exampleHref (cards named : Bool) : JsString :=
  js "/ada%40b.example/" ++ (if cards then js "contacts/" else js "calendar/") ++ (if named then Contacts.exampleUid else js "0A1B") ++
  (if cards then js ".vcf" else js ".ics")

def exampleServer (cards : Bool) : DavServer Bool where
  base := js "http://radicale:5232"
  origin := js "http://radicale:5232"
  collection := if cards then js "contacts" else js "calendar"
  pathname url := url.drop 20
  names url := decide (url = js "http://radicale:5232" ++ exampleHref cards true)
  href := exampleHref cards
  make := 405
  propfind := 207
  order rows := rows
  serves _ := true
  accepts _ _ _ := true
  deletes _ := true
  order_perm _ := List.Perm.refl _
  names_href named := by cases cards <;> cases named <;> decide +kernel

def single (named : Bool) (text : JsString) : Resources Bool := ⟨[(named,text)],List.nodup_singleton _⟩

theorem carries_single {Obj Input : Type} {f : ObjectFormat Obj Input} {id text : JsString} {o : Obj} (hread : f.read text = .ok (some o))
    (hid : f.uid o = id) (named k : Bool) : Carries f id (single named text) k ↔ k = named := by
  constructor
  · rintro ⟨body,_,hlookup,-⟩
    exact congrArg Prod.fst (List.mem_singleton.mp (Table.lookup_eq_some.mp hlookup).1)
  · rintro rfl
    exact ⟨text,o,Table.lookup_of_mem (r := (k,text)) List.mem_cons_self,hread,hid⟩

theorem exampleServer_puts (cards : Bool) : ∃ href,
    (exampleServer cards).putHref (if cards then js ".vcf" else js ".ics") exampleUser Contacts.exampleUid = some href ∧
    (exampleServer cards).names href = true := by
  refine ⟨js "http://radicale:5232" ++ exampleHref cards true,?_,?_⟩ <;> cases cards <;> decide +kernel

/-- The one resource is found, and the request goes to the resource that is named by the uid. -/
theorem update_single {Obj Input : Type} (f : ObjectFormat Obj Input) (cards : Bool)
    (hsuffix : f.suffix = if cards then js ".vcf" else js ".ics")
    (hcreated : 405 ∈ f.created) {text : JsString} {o : Obj} (hread : f.read text = .ok (some o))
    (hid : f.uid o = Contacts.exampleUid) (named : Bool) (input : Input) :
    ∃ result, updateResource asciiCase (exampleServer cards) f exampleUser Contacts.exampleUid input (single named text) =
      .ok (result,(single named text).upsert (true,requestText f Contacts.exampleUid input)) := by
  have hurl : ¬(exampleServer cards).collectionUrl exampleUser = none := by cases cards <;> decide +kernel
  have hhrefs : (exampleServer cards).hrefs asciiCase f.suffix (single named text) = [exampleHref cards named] := by
    rw [hsuffix]
    change [trim (exampleHref cards named)].filter _ = _
    cases cards <;> cases named <;> decide +kernel
  have hget : (exampleServer cards).get (single named text)
    (resolveHref (exampleServer cards).origin (exampleHref cards named)) = some text := by
    have htrim : trim ((exampleServer cards).href named) = exampleHref cards named := by cases cards <;> cases named <;> decide +kernel
    have hnames := (exampleServer cards).names_href named
    rw [htrim] at hnames
    have hserves : (exampleServer cards).serves named = true := rfl
    rw [DavServer.get,hnames,if_pos hserves,Table.lookup_of_mem (t := single named text) (r := (named,text)) List.mem_cons_self]
    rfl
  have hlist : listResources asciiCase (exampleServer cards) f.created f.suffix exampleUser (single named text) =
    .ok [(exampleHref cards named,text)] := by
    rw [listResources,if_neg hurl,if_pos ⟨hcreated,rfl⟩,hhrefs,List.filterMap_cons,hget]
    rfl
  have hfind : findResource f Contacts.exampleUid [(exampleHref cards named,text)] = .ok (exampleHref cards named) := by
    rw [findResource,hread]
    exact if_pos hid
  obtain ⟨href,hhref,hnames⟩ := exampleServer_puts cards
  have hupdate := updateResource_of input hlist hfind (hsuffix ▸ hhref) rfl
  rw [hnames] at hupdate
  exact ⟨_,hupdate⟩

def oldCard : JsString := Contacts.serializeVCard ⟨Contacts.exampleUid,js "Grace",[],[],none,none⟩

def oldEvent : JsString := Calendar.serializeICal isoParser .epoch { Calendar.offsite with uid := Contacts.exampleUid }

def movedEvent : CalendarEventRequest :=
  ⟨js "Offsite, moved",js "2026-05-09T08:30:15.250Z",js "2026-05-10T00:00:00Z",true,some (js "Hall 3"),none⟩

theorem read_oldCard : (cardFormat asciiCase).read oldCard = .ok (some ⟨Contacts.exampleUid,js "Grace",[],[],none,none⟩) := by
  have hvalid : (⟨js "Grace",[],[],none,none⟩ : Contacts.ContactRequest).Valid :=
    ⟨by decide,by decide,by simp,by decide,by simp,by simp,by simp⟩
  have hclean : (⟨js "Grace",[],[],none,none⟩ : Contacts.ContactRequest).Clean := ⟨by decide,by simp,by simp,by simp,by simp,by simp⟩
  have huid : Contacts.isUuid Contacts.exampleUid = true := by decide +kernel
  have hread := Contacts.parseVCard_serializeVCard asciiCase huid hvalid hclean
  exact congrArg Except.ok hread

theorem grace_readsBack : ReadsBack (cardFormat asciiCase) Contacts.exampleUid Contacts.grace :=
  card_readsBack asciiCase (by decide) Contacts.grace_valid ⟨by decide,by decide,by decide,by decide,by decide,by decide⟩
    (by decide +kernel)

theorem read_oldEvent : (eventFormat asciiCase isoParser .epoch).read oldEvent = .ok (some
    ⟨Contacts.exampleUid,Calendar.offsite.summary,js "2026-05-09T00:00:00.000Z",js "2026-05-10T00:00:00.000Z",
    true,Calendar.offsite.location,none⟩) := by
  have hs : isoParser.parse Calendar.offsite.startsAt = some Calendar.offsiteStart := by decide +kernel
  have ht : isoParser.parse Calendar.offsite.endsAt = some Calendar.offsiteEnd := by decide +kernel
  have hstart : toISOString (Calendar.kept Calendar.offsite.allDay Calendar.offsiteStart) =
    js "2026-05-09T00:00:00.000Z" := by decide +kernel
  have hend : toISOString (Calendar.kept Calendar.offsite.allDay Calendar.offsiteEnd) = js "2026-05-10T00:00:00.000Z" := by decide +kernel
  have h := @Calendar.parseICal_serializeICal asciiCase isoParser .epoch { Calendar.offsite with uid := Contacts.exampleUid }
    ⟨by decide,by decide,by decide,by decide⟩ (by decide) (by decide +kernel) _ _ hs ht ⟨by decide,by decide⟩ ⟨by decide,by decide⟩
  rw [hstart,hend] at h
  exact h

/-- What was written by this program is replaced. -/
theorem named_resources_in_place : ∃ c s e t,
    updateContact asciiCase (exampleServer true) exampleUser Contacts.exampleUid Contacts.grace (single true oldCard) = .ok (c,s) ∧
    InPlace asciiCase (exampleServer true) (cardFormat asciiCase) exampleUser Contacts.exampleUid
    Contacts.grace (single true oldCard) s true ∧
    updateEvent asciiCase isoParser .epoch (exampleServer false) exampleUser Contacts.exampleUid
    movedEvent (single true oldEvent) = .ok (e,t) ∧
    InPlace asciiCase (exampleServer false) (eventFormat asciiCase isoParser .epoch) exampleUser Contacts.exampleUid movedEvent
      (single true oldEvent) t true := by
  obtain ⟨c,hc⟩ := update_single (cardFormat asciiCase) true rfl (by decide) read_oldCard rfl true Contacts.grace
  obtain ⟨e,he⟩ := update_single (eventFormat asciiCase isoParser .epoch) false rfl (by decide) read_oldEvent rfl true movedEvent
  have hback : ReadsBack (eventFormat asciiCase isoParser .epoch) Contacts.exampleUid movedEvent := by
    refine ⟨⟨Contacts.exampleUid,js "Offsite, moved",js "2026-05-09T00:00:00.000Z",js "2026-05-10T00:00:00.000Z",
      true,some (js "Hall 3"),none⟩,
      by decide +kernel,Calendar.offsiteStart,Calendar.offsiteEnd,by decide +kernel,by decide +kernel,by decide +kernel⟩
  refine ⟨c,_,e,_,hc,?_,he,?_⟩
  · exact ((update_in_place_iff asciiCase isoParser .epoch (exampleServer true) exampleUser Contacts.exampleUid _ _ true).1 _ _
      (carries_single read_oldCard rfl true) hc).mpr (.inl ⟨exampleServer_puts true,grace_readsBack⟩)
  · exact ((update_in_place_iff asciiCase isoParser .epoch (exampleServer false) exampleUser Contacts.exampleUid _ _ true).2 _ _
      (carries_single read_oldEvent rfl true) he).mpr (.inl ⟨exampleServer_puts false,hback⟩)

/-- A contact that another client has stored under a name of its own is there twice after an update, and once more after a removal. -/
theorem foreign_resource_doubled : (∀ k, Carries (cardFormat asciiCase) Contacts.exampleUid (single false oldCard) k ↔ k = false) ∧
    ∃ c s, updateContact asciiCase (exampleServer true) exampleUser Contacts.exampleUid Contacts.grace (single false oldCard) = .ok (c,s) ∧
      (∀ k, Carries (cardFormat asciiCase) Contacts.exampleUid s k) ∧
      ¬InPlace asciiCase (exampleServer true) (cardFormat asciiCase) exampleUser Contacts.exampleUid
      Contacts.grace (single false oldCard) s false := by
  obtain ⟨c,hc⟩ := update_single (cardFormat asciiCase) true rfl (by decide) read_oldCard rfl false Contacts.grace
  have hboth (k : Bool) : Carries (cardFormat asciiCase) Contacts.exampleUid
      ((single false oldCard).upsert (true,requestText (cardFormat asciiCase) Contacts.exampleUid Contacts.grace)) k := by
    obtain ⟨o,hread,hagrees⟩ := grace_readsBack
    cases k with
    | false => exact ⟨oldCard,_,by rw [Table.lookup_upsert]; rfl,read_oldCard,rfl⟩
    | true =>
      refine ⟨_,o,by rw [Table.lookup_upsert,if_pos rfl],hread,?_⟩
      exact (cardFormat asciiCase).uid_of_agrees hagrees
  refine ⟨carries_single read_oldCard rfl false,c,_,hc,hboth,fun hin => ?_⟩
  cases (hin.only true).mp (hboth true)

end Placement
end JustMail.Dav
