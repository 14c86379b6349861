import JustMail.Dav.ContentLine

/-! `contacts/vcard.ts` and the part of `ContactRequest` that reaches it. -/
namespace JustMail.Contacts
open Foundation Dav.ContentLine

structure VCardEmail where
  address : JsString
  label : Option JsString
  deriving DecidableEq

structure VCardPhone where
  number : JsString
  label : Option JsString
  deriving DecidableEq

structure VCard where
  uid : JsString
  fullName : JsString
  emails : List VCardEmail
  phones : List VCardPhone
  organization : Option JsString
  note : Option JsString
  deriving DecidableEq

def PRODID : JsString := js "-//JustMail//Contacts//EN"

/-- One logical line after unfolding. The map is an association list. -/
structure RawProperty where
  name : JsString
  params : List (JsString × List JsString)
  value : JsString

def unfoldLines (text : JsString) : List JsString := Dav.ContentLine.unfoldLines text
def foldLine (line : JsString) : JsString := Dav.ContentLine.foldLine line
def unescapeValue (v : JsString) : JsString := unescapeText v

def escapeValue (v : JsString) : JsString :=
  replaceUnit (unit ';') (js "\\;") (replaceUnit (unit ',') (js "\\,")
    (replaceUnit LF (js "\\n") (replaceUnit BACKSLASH (js "\\\\") v)))

def splitUnescaped (v : JsString) (delim : CodeUnit) : List JsString :=
  splitUnescapedFrom BACKSLASH delim [] v

/-- The slices around the first colon outside double quotes. -/
def cutUnquoted (inQuote : Bool) : JsString → Option (JsString × JsString)
  | [] => none
  | c :: s =>
    if c = unit '"' then (cutUnquoted (!inQuote) s).map fun p => (c :: p.1,p.2)
    else if c = unit ':' ∧ inQuote = false then some ([],s)
    else (cutUnquoted inQuote s).map fun p => (c :: p.1,p.2)

/-- `list = params.get(key) ?? []; list.push(...values); params.set(key, list)`. -/
def pushParam (params : List (JsString × List JsString)) (key : JsString) (values : List JsString) :
    List (JsString × List JsString) :=
  if (params.lookup key).isSome then
    params.map fun p => if p.1 = key then (p.1,p.2 ++ values) else p
  else params ++ [(key,values)]

def stripQuotes (s : JsString) : JsString := removeUnits (· == unit '"') s

section Reading
variable (casing : CaseMapping)

/-- One round of the parameter loop; a bare parameter counts as a TYPE value. -/
def addSegment (params : List (JsString × List JsString)) (seg : JsString) : List (JsString × List JsString) :=
  match cut (unit '=') seg with
  | none => pushParam params (js "TYPE") [stripQuotes seg]
  | some (key,rawVal) => pushParam params (casing.toUpperCase key) ((rawVal.splitOn (unit ',')).map stripQuotes)

def parseProperty (line : JsString) : Option RawProperty :=
  match cutUnquoted false line with
  | none => none
  | some (head,value) =>
    let segments := splitUnescaped head (unit ';')
    some
      { name := casing.toUpperCase (segments.headD [])
        params := segments.tail.foldl (addSegment casing) []
        value }

def firstType (prop : RawProperty) : Option JsString :=
  match prop.params.lookup (js "TYPE") with
  | none => none
  | some [] => none
  | some (t :: types) =>
    some (casing.toLowerCase (((t :: types).find? fun u => casing.toLowerCase u != js "pref").getD t))

/-- `value.replace(/^urn:uuid:/i, "")`. -/
def stripUrn (v : JsString) : JsString :=
  if (v.take 9).map asciiLower = js "urn:uuid:" then v.drop 9 else v

/-- The mutable variables of the parsing loop. -/
structure CardState where
  emails : List VCardEmail
  phones : List VCardPhone
  uid : JsString
  fn : JsString
  nFallback : JsString
  organization : Option JsString
  note : Option JsString
  inCard : Bool

def CardState.initial : CardState := ⟨[],[],[],[],[],none,none,false⟩

/-- `x || null` on a string. -/
def orNull (s : JsString) : Option JsString := if s = [] then none else some s

/-- `[given, family].filter(Boolean).join(" ").trim()` over the components of N. -/
def displayName (parts : List JsString) : JsString :=
  let family := parts.getD 0 []
  let given := parts.getD 1 []
  trim ([SP].intercalate ([given,family].filter (· ≠ [])))

def applyProperty (st : CardState) (prop : RawProperty) : CardState :=
  if prop.name = js "BEGIN" then
    if casing.toUpperCase prop.value = js "VCARD" then { st with inCard := true } else st
  else if prop.name = js "END" then { st with inCard := false }
  else if prop.name = js "UID" then { st with uid := stripUrn (unescapeValue prop.value) }
  else if prop.name = js "FN" then { st with fn := unescapeValue prop.value }
  else if prop.name = js "N" then
    { st with nFallback := displayName ((splitUnescaped prop.value (unit ';')).map unescapeValue) }
  else if prop.name = js "EMAIL" then
    let address := trim (unescapeValue prop.value)
    if address = [] then st else { st with emails := st.emails ++ [⟨address,firstType casing prop⟩] }
  else if prop.name = js "TEL" then
    let number := trim (unescapeValue prop.value)
    if number = [] then st else { st with phones := st.phones ++ [⟨number,firstType casing prop⟩] }
  else if prop.name = js "ORG" then
    let org := trim (((splitUnescaped prop.value (unit ';')).map unescapeValue).headD [])
    { st with organization := orNull org }
  else if prop.name = js "NOTE" then { st with note := orNull (unescapeValue prop.value) }
  else st

def readLine (st : CardState) (line : JsString) : CardState :=
  if line = [] then st
  else match parseProperty casing line with
    | none => st
    | some prop => applyProperty casing st prop

def parseVCard (text : JsString) : Option VCard :=
  let st := (unfoldLines text).foldl (readLine casing) .initial
  if st.uid = [] then none
  else some
    { uid := st.uid
      fullName := if st.fn ≠ [] then st.fn else st.nFallback
      emails := st.emails
      phones := st.phones
      organization := st.organization
      note := st.note }

end Reading

/-- Parameter values are written bare, so what would need quoting is dropped. -/
def escapeParam (v : JsString) : JsString :=
  trim (removeUnits (fun c => c == unit '"' || c == unit ';' || c == unit ':' || c == unit ',') v)

/-- `;TYPE=..` for a non-empty label. -/
def typeParam : Option JsString → JsString
  | none => []
  | some label => if label = [] then [] else js ";TYPE=" ++ escapeParam label

def emailLine (email : VCardEmail) : JsString :=
  js "EMAIL" ++ typeParam email.label ++ js ":" ++ escapeValue email.address

def phoneLine (phone : VCardPhone) : JsString :=
  js "TEL" ++ typeParam phone.label ++ js ":" ++ escapeValue phone.number

/-- A property that is written only when its value is a non-empty string. -/
def optionalLine (name : JsString) : Option JsString → List JsString
  | none => []
  | some v => if v = [] then [] else [name ++ js ":" ++ escapeValue v]

/-- The property lines in order, before folding. -/
def cardLines (card : VCard) : List JsString :=
  [js "BEGIN:VCARD",js "VERSION:3.0",js "PRODID:" ++ PRODID,js "UID:" ++ escapeValue card.uid,
    js "FN:" ++ escapeValue card.fullName,js "N:" ++ escapeValue card.fullName ++ js ";;;;"] ++
  card.emails.map emailLine ++ card.phones.map phoneLine ++
  optionalLine (js "ORG") card.organization ++ optionalLine (js "NOTE") card.note ++ [js "END:VCARD"]

def serializeVCard (card : VCard) : JsString := CRLF.intercalate ((cardLines card).map foldLine) ++ CRLF

structure ContactRequest where
  fullName : JsString
  emails : List VCardEmail
  phones : List VCardPhone
  organization : Option JsString
  note : Option JsString

/-- Every unit an address that passes the e-mail check can hold. -/
def isEmailUnit (c : CodeUnit) : Bool :=
  (48 ≤ c && c ≤ 57) || (64 ≤ c && c ≤ 90) || (97 ≤ c && c ≤ 122) ||
  c == unit '_' || c == unit '\'' || c == unit '+' || c == unit '-' || c == unit '.'

/-- What `z.string().email().max(254)` guarantees here. -/
def IsEmail (s : JsString) : Prop := s ≠ [] ∧ s.length ≤ 254 ∧ ∀ c ∈ s, isEmailUnit c = true

def LabelFits (label : Option JsString) : Prop := ∀ l ∈ label, l.length ≤ 40

/-- The `ContactRequest` contract. -/
structure ContactRequest.Valid (c : ContactRequest) : Prop where
  name : 1 ≤ c.fullName.length ∧ c.fullName.length ≤ 320
  emailCount : c.emails.length ≤ 32
  email : ∀ e ∈ c.emails, IsEmail e.address ∧ LabelFits e.label
  phoneCount : c.phones.length ≤ 32
  phone : ∀ p ∈ c.phones, 1 ≤ p.number.length ∧ p.number.length ≤ 64 ∧ LabelFits p.label
  organization : ∀ o ∈ c.organization, o.length ≤ 320
  note : ∀ n ∈ c.note, n.length ≤ 4000

def isHexUnit (c : CodeUnit) : Bool := (48 ≤ c && c ≤ 57) || (65 ≤ c && c ≤ 70) || (97 ≤ c && c ≤ 102)

/-- The 8-4-4-4-12 text form of a UUID. -/
def isUuid (s : JsString) : Bool :=
  s.length == 36 && (List.range 36).all fun i =>
    if i = 8 ∨ i = 13 ∨ i = 18 ∨ i = 23 then s[i]? == some (unit '-') else s[i]?.any isHexUnit

def toVCard (uid : JsString) (input : ContactRequest) : VCard :=
  ⟨uid,input.fullName,input.emails,input.phones,input.organization,input.note⟩

end JustMail.Contacts
