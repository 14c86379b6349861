import Mathlib.Algebra.GroupWithZero.Nat
import JustMail.Foundation.CodeUnits
import JustMail.Foundation.UtcDate

/-! The search box (`webmail.service.ts`): the text of a query is cut into operators and free text, and compiled with
the fields of the request into criteria for the server. -/
namespace JustMail.Webmail.Search
open Foundation

def SP : CodeUnit := 32
def QUOTE : CodeUnit := unit '"'
def COLON : CodeUnit := unit ':'

/-- A match of `tokenRe`, by the groups that took part in it. -/
inductive Token where
  | operator (name value : JsString) (quoted : Bool)
  | free (text : JsString)
  deriving DecidableEq

/-- `"([^"]*)"`, with what follows it. -/
def matchQuoted : JsString → Option (JsString × JsString)
  | [] => none
  | c :: s => if c = QUOTE then cut QUOTE s else none

/-- `(\S+)`. -/
def matchSolid (s : JsString) : Option (JsString × JsString) :=
  let solid := s.takeWhile fun c => !isSpace c
  if solid = [] then none else some (solid,s.dropWhile fun c => !isSpace c)

/-- `(\w+):(?:"([^"]*)"|(\S+))`. No other stretch of word units ends before a colon. -/
def matchOperator (s : JsString) : Option (Token × JsString) :=
  let name := s.takeWhile isWord
  match s.dropWhile isWord with
  | [] => none
  | c :: after =>
    if name = [] ∨ c ≠ COLON then none
    else match matchQuoted after with
      | some (value,rest) => some (.operator name value true,rest)
      | none => (matchSolid after).map fun p => (.operator name p.1 false,p.2)

def matchToken (s : JsString) : Option (Token × JsString) :=
  match matchOperator s with
  | some p => some p
  | none => match matchQuoted s with
    | some (text,rest) => some (.free text,rest)
    | none => (matchSolid s).map fun p => (.free p.1,p.2)

/-- The matches of `tokenRe` from left to right; white space begins none. -/
def tokensFrom : Nat → JsString → List Token
  | 0, _ => []
  | fuel+1, s => match matchToken (trimStart s) with
    | none => []
    | some (token,rest) => token :: tokensFrom fuel rest

def tokens (q : JsString) : List Token := tokensFrom q.length q

/-- `m[0]`. -/
def Token.raw : Token → JsString
  | .operator name value quoted => name ++ COLON :: if quoted then QUOTE :: (value ++ [QUOTE]) else value
  | .free text => text

/-- The cases of the switch over the operator. -/
inductive Operator where
  | «from» | «to» | cc | subject | body | before | since | has | is | unknown
  deriving DecidableEq

def operatorOf (op : JsString) : Operator :=
  if op = js "from" then .from
  else if op = js "to" then .to
  else if op = js "cc" then .cc
  else if op = js "subject" then .subject
  else if op = js "body" then .body
  else if op = js "before" then .before
  else if op = js "after" ∨ op = js "since" then .since
  else if op = js "has" then .has
  else if op = js "is" then .is
  else .unknown

/-- The criteria that are set here. -/
structure SearchObject where
  «from» : Option JsString
  «to» : Option JsString
  cc : Option JsString
  subject : Option JsString
  body : Option JsString
  before : Option Instant
  since : Option Instant
  seen : Option Bool
  flagged : Option Bool
  text : Option JsString
  all : Option Bool
  deriving DecidableEq

def SearchObject.empty : SearchObject := ⟨none,none,none,none,none,none,none,none,none,none,none⟩

/-- A request that has passed its schema. -/
structure SearchRequest where
  q : JsString
  «from» : Option JsString
  «to» : Option JsString
  has_attachment : Option Bool
  after : Option JsString
  before : Option JsString
  q_length : 1 ≤ q.length ∧ q.length ≤ 500
  from_length : ∀ v ∈ «from», v.length ≤ 320
  to_length : ∀ v ∈ «to», v.length ≤ 320
  after_given : ∀ v ∈ after, v ≠ []
  before_given : ∀ v ∈ before, v ≠ []

section Compile
variable (casing : CaseMapping) (dates : DateParser)

def parseSearchDate (value : JsString) : Option Instant := dates.parse value

/-- The variables of the loop. -/
structure SearchState where
  criteria : SearchObject
  hasAttachment : Bool
  free : List JsString

/-- `is:`. -/
def applyFlag (c : SearchObject) (value : JsString) : SearchObject :=
  if value = js "unread" ∨ value = js "unseen" then { c with seen := some false }
  else if value = js "read" ∨ value = js "seen" then { c with seen := some true }
  else if value = js "starred" ∨ value = js "flagged" then { c with flagged := some true }
  else if value = js "unstarred" ∨ value = js "unflagged" then { c with flagged := some false }
  else c

/-- One round of the loop. -/
def applyToken (st : SearchState) (token : Token) : SearchState :=
  match token with
  | .free text => { st with free := st.free ++ [trim text] }
  | .operator name value quoted =>
    let v := trim value
    if v = [] then st
    else match operatorOf (casing.toLowerCase name) with
      | .from => { st with criteria := { st.criteria with «from» := some v } }
      | .to => { st with criteria := { st.criteria with «to» := some v } }
      | .cc => { st with criteria := { st.criteria with cc := some v } }
      | .subject => { st with criteria := { st.criteria with subject := some v } }
      | .body => { st with criteria := { st.criteria with body := some v } }
      | .before => match parseSearchDate dates v with
        | none => st
        | some d => { st with criteria := { st.criteria with before := some d } }
      | .since => match parseSearchDate dates v with
        | none => st
        | some d => { st with criteria := { st.criteria with since := some d } }
      | .has => if casing.toLowerCase v = js "attachment" then { st with hasAttachment := true } else st
      | .is => { st with criteria := applyFlag st.criteria (casing.toLowerCase v) }
      | .unknown => { st with free := st.free ++ [Token.raw (.operator name value quoted)] }

/-- `if (field) criteria.x = field`. -/
def overrideText (field old : Option JsString) : Option JsString :=
  match field with
  | none => old
  | some v => if v = [] then old else some v

/-- The same for a date, kept when it can be read. -/
def overrideDate (field : Option JsString) (old : Option Instant) : Option Instant :=
  match field with
  | none => old
  | some v => if v = [] then old else (parseSearchDate dates v).or old

def scanQuery (input : SearchRequest) : SearchState :=
  (tokens input.q).foldl (applyToken casing dates) ⟨.empty,input.has_attachment.getD false,[]⟩

/-- The criteria before the last resort. -/
def compiled (input : SearchRequest) : SearchObject :=
  let st := scanQuery casing dates input
  let text := [SP].intercalate (st.free.filter (· ≠ []))
  let c := if text = [] then st.criteria else { st.criteria with text := some text }
  { c with
    «from» := overrideText input.from c.from
    «to» := overrideText input.to c.to
    since := overrideDate dates input.after c.since
    before := overrideDate dates input.before c.before }

def buildSearchCriteria (input : SearchRequest) : SearchObject × Bool :=
  let hasAttachment := (scanQuery casing dates input).hasAttachment
  let c := compiled casing dates input
  if c = .empty then (if hasAttachment then { c with all := some true } else { c with text := some (trim input.q) },hasAttachment)
  else (c,hasAttachment)

def valueFor (op : Operator) : Token → Option JsString
  | .free _ => none
  | .operator name value _ => if operatorOf (casing.toLowerCase name) = op ∧ trim value ≠ [] then some (trim value) else none

def dateFor (op : Operator) (token : Token) : Option Instant := (valueFor casing op token).bind (parseSearchDate dates)

/-- What `is:` says. -/
def seenFlag (value : JsString) : Option Bool :=
  if value = js "unread" ∨ value = js "unseen" then some false
  else if value = js "read" ∨ value = js "seen" then some true
  else none

def flaggedFlag (value : JsString) : Option Bool :=
  if value = js "starred" ∨ value = js "flagged" then some true
  else if value = js "unstarred" ∨ value = js "unflagged" then some false
  else none

def seenFor (token : Token) : Option Bool := (valueFor casing .is token).bind fun v => seenFlag (casing.toLowerCase v)
def flaggedFor (token : Token) : Option Bool := (valueFor casing .is token).bind fun v => flaggedFlag (casing.toLowerCase v)

/-- `has:attachment`. -/
def asksAttachment (token : Token) : Bool := (valueFor casing .has token).any fun v => casing.toLowerCase v = js "attachment"

def remaining : Token → Option JsString
  | .free text => if trim text = [] then none else some (trim text)
  | .operator name value quoted =>
    if operatorOf (casing.toLowerCase name) = .unknown then some (Token.raw (.operator name value quoted)) else none

/-- An unknown operator with nothing but white space in quotes. -/
def Hollow : Token → Prop
  | .free _ => False
  | .operator name value _ => operatorOf (casing.toLowerCase name) = .unknown ∧ trim value = []

def kept : Token → Option JsString
  | .free text => if trim text = [] then none else some (trim text)
  | .operator name value quoted =>
    if operatorOf (casing.toLowerCase name) = .unknown ∧ trim value ≠ [] then some (Token.raw (.operator name value quoted)) else none

/-- The criteria that one token sets. -/
def said (token : Token) : SearchObject where
  «from» := valueFor casing .from token
  «to» := valueFor casing .to token
  cc := valueFor casing .cc token
  subject := valueFor casing .subject token
  body := valueFor casing .body token
  before := dateFor casing dates .before token
  since := dateFor casing dates .since token
  seen := seenFor casing token
  flagged := flaggedFor casing token
  text := none
  all := none

def lastOf {β : Type} (q : JsString) (f : Token → Option β) : Option β := ((tokens q).filterMap f).getLast?

def remainingText (q : JsString) : JsString := [SP].intercalate ((tokens q).filterMap (remaining casing))

/-- Nothing is asked but the text. -/
def SearchObject.Bare (c : SearchObject) : Prop :=
  c.from = none ∧ c.to = none ∧ c.cc = none ∧ c.subject = none ∧ c.body = none ∧ c.before = none ∧
    c.since = none ∧ c.seen = none ∧ c.flagged = none

instance (c : SearchObject) : Decidable c.Bare := inferInstanceAs (Decidable (_ ∧ _))

/-- A field of the request comes first, then the last of the operators. -/
structure Follows (input : SearchRequest) (c : SearchObject) (hasAttachment : Bool) : Prop where
  «from» : c.from = input.from.or (lastOf input.q (valueFor casing .from))
  «to» : c.to = input.to.or (lastOf input.q (valueFor casing .to))
  sinceField : ∀ v ∈ input.after, ∃ d, parseSearchDate dates v = some d ∧ c.since = some d
  sinceQuery : input.after = none → c.since = lastOf input.q (dateFor casing dates .since)
  beforeField : ∀ v ∈ input.before, ∃ d, parseSearchDate dates v = some d ∧ c.before = some d
  beforeQuery : input.before = none → c.before = lastOf input.q (dateFor casing dates .before)
  attachment : hasAttachment = input.has_attachment.getD ((tokens input.q).any (asksAttachment casing))
  cc : c.cc = lastOf input.q (valueFor casing .cc)
  subject : c.subject = lastOf input.q (valueFor casing .subject)
  body : c.body = lastOf input.q (valueFor casing .body)
  seen : c.seen = lastOf input.q (seenFor casing)
  flagged : c.flagged = lastOf input.q (flaggedFor casing)
  text : c.text = if remainingText casing input.q ≠ [] then some (remainingText casing input.q)
    else if c.Bare ∧ hasAttachment = false then some (trim input.q) else none
  all : c.all = if remainingText casing input.q = [] ∧ c.Bare ∧ hasAttachment = true then some true else none
  nonempty : c ≠ .empty

/-- The query is nothing but hollow operators, one space apart, and so the text itself. -/
structure Lone (input : SearchRequest) : Prop where
  silent : ∀ token ∈ tokens input.q, said casing dates token = .empty ∧ kept casing token = none ∧ asksAttachment casing token = false
  fields : input.from = none ∧ input.to = none ∧ input.after = none ∧ input.before = none ∧ input.has_attachment ≠ some true
  text : remainingText casing input.q = trim input.q

/-- When the request is compiled as it should be. -/
structure Honoured (input : SearchRequest) : Prop where
  «from» : input.from ≠ some []
  «to» : input.to ≠ some []
  after : ∀ v ∈ input.after, (parseSearchDate dates v).isSome
  before : ∀ v ∈ input.before, (parseSearchDate dates v).isSome
  attachment : input.has_attachment = some false → ∀ token ∈ tokens input.q, asksAttachment casing token = false
  unknown : (∀ token ∈ tokens input.q, ¬Hollow casing token) ∨ Lone casing dates input

end Compile
section Loop
variable {casing : CaseMapping} {dates : DateParser} {q : JsString} {token : Token} {ts : List Token}

/-- What each token may set is set by the last that does. -/
theorem foldl_last {σ β : Type} {step : σ → Token → σ} {sets : Token → Option β} (field : σ → Option β)
    (h : ∀ st token, field (step st token) = (sets token).or (field st)) (ts : List Token) (st : σ) :
    field (ts.foldl step st) = (ts.filterMap sets).getLast?.or (field st) := by
  induction ts generalizing st with
  | nil => rfl
  | cons token ts ih =>
    rw [List.foldl_cons,ih,h]
    cases htoken : sets token with
    | none => rw [List.filterMap_cons_none htoken,Option.none_or]
    | some v =>
      rw [List.filterMap_cons_some htoken,List.getLast?_cons,Option.some_or]
      cases (ts.filterMap sets).getLast? with
      | none => rfl
      | some w => rfl

theorem applyFlag_eq (c : SearchObject) (v : JsString) :
    applyFlag c v = { c with seen := (seenFlag v).or c.seen, flagged := (flaggedFlag v).or c.flagged } := by
  unfold applyFlag seenFlag flaggedFlag
  split
  · rename_i hv
    rcases hv with rfl | rfl
    · rfl
    · rfl
  split
  · rename_i hv
    rcases hv with rfl | rfl
    · rfl
    · rfl
  split
  · rfl
  split
  · rfl
  · rfl

theorem applyToken_criteria (st : SearchState) (token : Token) : (applyToken casing dates st token).criteria =
    { st.criteria with
      «from» := (valueFor casing .from token).or st.criteria.from
      «to» := (valueFor casing .to token).or st.criteria.to
      cc := (valueFor casing .cc token).or st.criteria.cc
      subject := (valueFor casing .subject token).or st.criteria.subject
      body := (valueFor casing .body token).or st.criteria.body
      before := (dateFor casing dates .before token).or st.criteria.before
      since := (dateFor casing dates .since token).or st.criteria.since
      seen := (seenFor casing token).or st.criteria.seen
      flagged := (flaggedFor casing token).or st.criteria.flagged } := by
  cases token with
  | free text => rfl
  | operator name value quoted =>
    by_cases hv : trim value = []
    · simp [applyToken,valueFor,dateFor,seenFor,flaggedFor,hv]
    · cases hop : operatorOf (casing.toLowerCase name) with
      | before =>
        cases hdate : parseSearchDate dates (trim value) with
        | none => simp [applyToken,valueFor,dateFor,seenFor,flaggedFor,hv,hop,hdate]
        | some d => simp [applyToken,valueFor,dateFor,seenFor,flaggedFor,hv,hop,hdate]
      | since =>
        cases hdate : parseSearchDate dates (trim value) with
        | none => simp [applyToken,valueFor,dateFor,seenFor,flaggedFor,hv,hop,hdate]
        | some d => simp [applyToken,valueFor,dateFor,seenFor,flaggedFor,hv,hop,hdate]
      | has =>
        by_cases hatt : casing.toLowerCase (trim value) = js "attachment"
        · simp [applyToken,valueFor,dateFor,seenFor,flaggedFor,hv,hop,hatt]
        · simp [applyToken,valueFor,dateFor,seenFor,flaggedFor,hv,hop,hatt]
      | is => simp [applyToken,valueFor,dateFor,seenFor,flaggedFor,hv,hop,applyFlag_eq]
      | «from» | «to» | cc | subject | body | unknown => simp [applyToken,valueFor,dateFor,seenFor,flaggedFor,hv,hop]

theorem applyToken_attachment (st : SearchState) (token : Token) :
    (applyToken casing dates st token).hasAttachment = (asksAttachment casing token || st.hasAttachment) := by
  cases token with
  | free text => rfl
  | operator name value quoted =>
    by_cases hv : trim value = []
    · simp [applyToken,asksAttachment,valueFor,hv]
    · cases hop : operatorOf (casing.toLowerCase name) with
      | before | since => cases hdate : parseSearchDate dates (trim value) <;> simp [applyToken,asksAttachment,valueFor,hv,hop,hdate]
      | has =>
        by_cases hatt : casing.toLowerCase (trim value) = js "attachment"
        · simp [applyToken,asksAttachment,valueFor,hv,hop,hatt]
        · simp [applyToken,asksAttachment,valueFor,hv,hop,hatt]
      | «from» | «to» | cc | subject | body | unknown | is => simp [applyToken,asksAttachment,valueFor,hv,hop]

theorem raw_ne_nil (name value : JsString) (quoted : Bool) : Token.raw (.operator name value quoted) ≠ [] :=
  List.append_ne_nil_of_right_ne_nil _ (List.cons_ne_nil _ _)

theorem applyToken_free (st : SearchState) (token : Token) : (applyToken casing dates st token).free.filter (· ≠ []) =
    st.free.filter (· ≠ []) ++ (kept casing token).toList := by
  cases token with
  | free text =>
    by_cases htext : trim text = []
    · simp [applyToken,kept,htext]
    · simp [applyToken,kept,htext]
  | operator name value quoted =>
    by_cases hv : trim value = []
    · simp [applyToken,kept,hv]
    · cases hop : operatorOf (casing.toLowerCase name) with
      | before | since => cases hdate : parseSearchDate dates (trim value) <;> simp [applyToken,kept,hv,hop,hdate]
      | has =>
        by_cases hatt : casing.toLowerCase (trim value) = js "attachment"
        · simp [applyToken,kept,hv,hop,hatt]
        · simp [applyToken,kept,hv,hop,hatt]
      | unknown => simp [applyToken,kept,hv,hop,raw_ne_nil]
      | «from» | «to» | cc | subject | body | is => simp [applyToken,kept,hv,hop]

end Loop
section Exactness
variable {casing : CaseMapping} {dates : DateParser} {input : SearchRequest} {q : JsString}
  {token : Token} {ts : List Token} {c : SearchObject}

theorem lastOf_eq_none {β : Type} {f : Token → Option β} : lastOf q f = none ↔ ∀ token ∈ tokens q, f token = none := by
  rw [lastOf,List.getLast?_eq_none_iff,List.filterMap_eq_nil_iff]

theorem lastOf_mem {β : Type} {f : Token → Option β} {v : β} (h : lastOf q f = some v) : ∃ token ∈ tokens q, f token = some v :=
  List.mem_filterMap.mp (List.mem_of_getLast? h)

theorem valueFor_ne_nil {op : Operator} {v : JsString} (h : valueFor casing op token = some v) : v ≠ [] := by
  cases token with
  | free text => cases h
  | operator name value quoted =>
    rw [valueFor] at h
    split at h
    · rename_i hvalue
      cases h
      exact hvalue.2
    · cases h

/-- What the loop leaves. -/
theorem scanQuery_criteria (input : SearchRequest) : (scanQuery casing dates input).criteria =
    ⟨lastOf input.q (valueFor casing .from),lastOf input.q (valueFor casing .to),lastOf input.q (valueFor casing .cc),
      lastOf input.q (valueFor casing .subject),lastOf input.q (valueFor casing .body),lastOf input.q (dateFor casing dates .before),
      lastOf input.q (dateFor casing dates .since),lastOf input.q (seenFor casing),lastOf input.q (flaggedFor casing),none,none⟩ := by
  have hfield {β : Type} (field : SearchObject → Option β) (sets : Token → Option β) (hempty : field .empty = none)
      (h : ∀ st token, field (applyToken casing dates st token).criteria = (sets token).or (field st.criteria)) :
      field (scanQuery casing dates input).criteria = lastOf input.q sets := by
    have hlast := foldl_last (fun st : SearchState => field st.criteria) h (tokens input.q) ⟨.empty,input.has_attachment.getD false,[]⟩
    rw [scanQuery]
    exact hlast.trans (by rw [hempty,Option.or_none]; rfl)
  have hnone {β : Type} (q : JsString) : lastOf q (fun _ => (none : Option β)) = none := lastOf_eq_none.mpr fun _ _ => rfl
  have htext := hfield (·.text) (fun _ => none) rfl fun st token => by rw [applyToken_criteria]; rfl
  have hall := hfield (·.all) (fun _ => none) rfl fun st token => by rw [applyToken_criteria]; rfl
  rw [hnone] at htext hall
  rw [← hfield (·.from) _ rfl fun st token => by rw [applyToken_criteria],
    ← hfield (·.to) _ rfl fun st token => by rw [applyToken_criteria],
    ← hfield (·.cc) _ rfl fun st token => by rw [applyToken_criteria],← hfield (·.subject) _ rfl fun st token => by
      rw [applyToken_criteria],
    ← hfield (·.body) _ rfl fun st token => by rw [applyToken_criteria],← hfield (·.before) _ rfl fun st token => by
      rw [applyToken_criteria],
    ← hfield (·.since) _ rfl fun st token => by rw [applyToken_criteria],← hfield (·.seen) _ rfl fun st token => by
      rw [applyToken_criteria],
    ← hfield (·.flagged) _ rfl fun st token => by rw [applyToken_criteria],← htext,← hall]

theorem scanQuery_attachment (input : SearchRequest) :
    (scanQuery casing dates input).hasAttachment = (input.has_attachment.getD false || (tokens input.q).any (asksAttachment casing)) := by
  have hall (ts : List Token) (st : SearchState) :
      (ts.foldl (applyToken casing dates) st).hasAttachment = (st.hasAttachment || ts.any (asksAttachment casing)) := by
    induction ts generalizing st with
    | nil => exact (Bool.or_false _).symm
    | cons token ts ih =>
      rw [List.foldl_cons,ih,applyToken_attachment,List.any_cons,Bool.or_comm (asksAttachment casing token),Bool.or_assoc]
  exact hall _ _

theorem scanQuery_free (input : SearchRequest) :
    (scanQuery casing dates input).free.filter (· ≠ []) = (tokens input.q).filterMap (kept casing) := by
  have hall (ts : List Token) (st : SearchState) :
      (ts.foldl (applyToken casing dates) st).free.filter (· ≠ []) = st.free.filter (· ≠ []) ++ ts.filterMap (kept casing) := by
    induction ts generalizing st with
    | nil => exact (List.append_nil _).symm
    | cons token ts ih =>
      rw [List.foldl_cons,ih,applyToken_free,List.append_assoc]
      cases hkept : kept casing token with
      | none => rw [List.filterMap_cons_none hkept]; rfl
      | some text => rw [List.filterMap_cons_some hkept]; rfl
  exact hall _ _

theorem compiled_eq (input : SearchRequest) : compiled casing dates input =
    ⟨overrideText input.from (lastOf input.q (valueFor casing .from)),overrideText input.to (lastOf input.q (valueFor casing .to)),
      lastOf input.q (valueFor casing .cc),lastOf input.q (valueFor casing .subject),lastOf input.q (valueFor casing .body),
      overrideDate dates input.before (lastOf input.q (dateFor casing dates .before)),
      overrideDate dates input.after (lastOf input.q (dateFor casing dates .since)),
      lastOf input.q (seenFor casing),lastOf input.q (flaggedFor casing),
      if [SP].intercalate ((tokens input.q).filterMap (kept casing)) = [] then none
        else some ([SP].intercalate ((tokens input.q).filterMap (kept casing))),none⟩ := by
  rw [compiled,scanQuery_free,scanQuery_criteria]
  dsimp only
  split
  · rfl
  · rfl

theorem eq_empty_iff : c = .empty ↔ c.Bare ∧ c.text = none ∧ c.all = none := by
  cases c
  simp [SearchObject.empty,SearchObject.Bare,and_assoc]

theorem join_eq_nil {texts : List JsString} (h : ∀ text ∈ texts, text ≠ []) : [SP].intercalate texts = [] ↔ texts = [] := by
  constructor
  · intro hjoin
    cases texts with
    | nil => rfl
    | cons text texts =>
      have htext := h text List.mem_cons_self
      cases texts with
      | nil => exact absurd (by simpa using hjoin) htext
      | cons next texts =>
        rw [List.intercalate_cons_cons,List.append_assoc] at hjoin
        exact absurd (List.append_eq_nil_iff.mp hjoin).1 htext
  · rintro rfl
    rfl

def joinedLength (texts : List JsString) : Nat := (texts.map fun text => text.length + 1).sum

theorem length_join (texts : List JsString) (h : texts ≠ []) : ([SP].intercalate texts).length + 1 = joinedLength texts := by
  induction texts with
  | nil => exact absurd rfl h
  | cons text texts ih =>
    cases texts with
    | nil => simp [joinedLength]
    | cons next texts =>
      have hrest := ih (List.cons_ne_nil _ _)
      have hcons : joinedLength (text :: next :: texts) = text.length + 1 + joinedLength (next :: texts) := rfl
      rw [List.intercalate_cons_cons,List.length_append,List.length_append,List.length_singleton,hcons]
      omega

theorem kept_eq_remaining (h : ¬Hollow casing token) : kept casing token = remaining casing token := by
  cases token with
  | free text => rfl
  | operator name value quoted =>
    by_cases hname : operatorOf (casing.toLowerCase name) = .unknown
    · have hvalue : trim value ≠ [] := fun hvalue => h ⟨hname,hvalue⟩
      rw [kept,remaining,if_pos ⟨hname,hvalue⟩,if_pos hname]
    · rw [kept,remaining,if_neg fun hboth => hname hboth.1,if_neg hname]

theorem kept_hollow (h : Hollow casing token) : kept casing token = none ∧ ∃ text, remaining casing token = some text := by
  cases token with
  | free text => cases h
  | operator name value quoted => exact ⟨if_neg fun hboth => hboth.2 h.2,_,if_pos h.1⟩

theorem remaining_ne_nil {text : JsString} (h : remaining casing token = some text) : text ≠ [] := by
  cases token with
  | free text =>
    rw [remaining] at h
    split at h
    · cases h
    · cases h
      assumption
  | operator name value quoted =>
    rw [remaining] at h
    split at h
    · cases h
      exact raw_ne_nil name value quoted
    · cases h

theorem joinedLength_filterMap_cons (f : Token → Option JsString) (token : Token) (ts : List Token) :
    joinedLength ((token :: ts).filterMap f) = ((f token).map fun text => text.length + 1).getD 0 + joinedLength (ts.filterMap f) := by
  cases htoken : f token with
  | none => rw [List.filterMap_cons_none htoken,Option.map_none,Option.getD_none,Nat.zero_add]
  | some text =>
    rw [List.filterMap_cons_some htoken]
    rfl

theorem kept_le (ts : List Token) : joinedLength (ts.filterMap (kept casing)) ≤ joinedLength (ts.filterMap (remaining casing)) := by
  induction ts with
  | nil => exact le_rfl
  | cons token ts ih =>
    rw [joinedLength_filterMap_cons,joinedLength_filterMap_cons]
    by_cases hhollow : Hollow casing token
    · rw [(kept_hollow hhollow).1]
      exact Nat.add_le_add (Nat.zero_le _) ih
    · rw [kept_eq_remaining hhollow]
      exact Nat.add_le_add_left ih _

/-- What is dropped from the text makes it shorter. -/
theorem kept_lt (hmem : token ∈ ts) (hhollow : Hollow casing token) :
    joinedLength (ts.filterMap (kept casing)) < joinedLength (ts.filterMap (remaining casing)) := by
  induction ts with
  | nil => cases hmem
  | cons first ts ih =>
    rw [joinedLength_filterMap_cons,joinedLength_filterMap_cons]
    rcases List.mem_cons.mp hmem with rfl | hmem
    · obtain ⟨hnone,text,htext⟩ := kept_hollow hhollow
      have hrest : joinedLength (ts.filterMap (kept casing)) ≤ joinedLength (ts.filterMap (remaining casing)) := kept_le ts
      rw [hnone,htext]
      simp only [Option.map_none,Option.getD_none,Option.map_some,Option.getD_some]
      omega
    · by_cases hfirst : Hollow casing first
      · rw [(kept_hollow hfirst).1]
        exact Nat.add_lt_add_of_le_of_lt (Nat.zero_le _) (ih hmem)
      · rw [kept_eq_remaining hfirst]
        exact Nat.add_lt_add_left (ih hmem) _

theorem overrideText_eq (field old : Option JsString) (h : field ≠ some []) : overrideText field old = field.or old := by
  cases field with
  | none => rfl
  | some v => exact if_neg fun hv => h (by rw [hv])

theorem overrideText_ne (old : Option JsString) (h : old ≠ some []) (field : Option JsString) : overrideText field old ≠ some [] := by
  cases field with
  | none => exact h
  | some v =>
    rw [overrideText]
    split
    · exact h
    · rename_i hv
      exact fun he => hv (Option.some.inj he)

theorem lastOf_valueFor_ne (op : Operator) : lastOf q (valueFor casing op) ≠ some [] := by
  intro h
  obtain ⟨token,-,hvalue⟩ := lastOf_mem h
  exact valueFor_ne_nil hvalue rfl

theorem overrideDate_some {v : JsString} {d : Instant} (hv : v ≠ []) (h : parseSearchDate dates v = some d) (old : Option Instant) :
    overrideDate dates (some v) old = some d := by
  rw [overrideDate,if_neg hv,h]
  rfl

/-- The text that is left of the query. -/
def keptText (casing : CaseMapping) (q : JsString) : JsString := [SP].intercalate ((tokens q).filterMap (kept casing))

theorem compiled_empty_iff : compiled casing dates input = .empty ↔ (compiled casing dates input).Bare ∧ keptText casing input.q = [] := by
  rw [eq_empty_iff]
  refine and_congr_right fun _ => ?_
  rw [compiled_eq]
  change (if keptText casing input.q = [] then none else some (keptText casing input.q)) = none ∧ none = none ↔ _
  split
  · rename_i htext
    exact iff_of_true ⟨rfl,rfl⟩ htext
  · rename_i htext
    exact iff_of_false (fun h => nomatch h.1) htext

/-- The result, with what the last resort adds. -/
theorem build_eq (input : SearchRequest) : buildSearchCriteria casing dates input =
    ({ compiled casing dates input with
        text := if keptText casing input.q ≠ [] then some (keptText casing input.q)
          else if (compiled casing dates input).Bare ∧
            (scanQuery casing dates input).hasAttachment = false then some (trim input.q) else none
        all := if keptText casing input.q = [] ∧ (compiled casing dates input).Bare ∧ (scanQuery casing dates input).hasAttachment = true
          then some true else none },
      (scanQuery casing dates input).hasAttachment) := by
  have htext : (compiled casing dates input).text = if keptText casing input.q = [] then none else some (keptText casing input.q) := by
    rw [compiled_eq]
    rfl
  have hall : (compiled casing dates input).all = none := by rw [compiled_eq]
  rw [buildSearchCriteria]
  dsimp only
  by_cases hempty : compiled casing dates input = .empty
  · obtain ⟨hbare,hnone⟩ := compiled_empty_iff.mp hempty
    rw [if_pos hempty]
    cases hatt : (scanQuery casing dates input).hasAttachment with
    | true => simp [hbare,hnone,htext]
    | false => simp [hbare,hnone,hall]
  · have hsome : ¬((compiled casing dates input).Bare ∧ keptText casing input.q = []) := mt compiled_empty_iff.mpr hempty
    rw [if_neg hempty]
    by_cases hkept : keptText casing input.q = []
    · have hbare : ¬(compiled casing dates input).Bare := fun hbare => hsome ⟨hbare,hkept⟩
      rw [if_pos hkept] at htext
      simp [hkept,hbare,← htext,← hall]
    · rw [if_neg hkept] at htext
      simp [hkept,← htext,← hall]

theorem kept_ne_nil {text : JsString} (h : kept casing token = some text) : text ≠ [] := by
  by_cases hhollow : Hollow casing token
  · rw [(kept_hollow hhollow).1] at h
    cases h
  · rw [kept_eq_remaining hhollow] at h
    exact remaining_ne_nil h

theorem keptText_eq_nil : keptText casing q = [] ↔ ∀ token ∈ tokens q, kept casing token = none := by
  rw [keptText,join_eq_nil,List.filterMap_eq_nil_iff]
  intro text htext
  obtain ⟨token,-,hkept⟩ := List.mem_filterMap.mp htext
  exact kept_ne_nil hkept

theorem remainingText_eq_nil : remainingText casing q = [] ↔ ∀ token ∈ tokens q, remaining casing token = none := by
  rw [remainingText,join_eq_nil,List.filterMap_eq_nil_iff]
  intro text htext
  obtain ⟨token,-,hremaining⟩ := List.mem_filterMap.mp htext
  exact remaining_ne_nil hremaining

theorem keptText_eq (h : ∀ token ∈ tokens q, ¬Hollow casing token) : keptText casing q = remainingText casing q := by
  rw [keptText,remainingText,List.filterMap_congr fun token htoken => kept_eq_remaining (h token htoken)]

/-- A text with something dropped is another text. -/
theorem keptText_ne (hmem : token ∈ tokens q) (hhollow : Hollow casing token) (hkept : keptText casing q ≠ []) :
    keptText casing q ≠ remainingText casing q := by
  intro he
  have hlt := kept_lt hmem hhollow
  have hK := length_join ((tokens q).filterMap (kept casing)) fun hnil => hkept (by rw [keptText,hnil]; rfl)
  have hR := length_join ((tokens q).filterMap (remaining casing)) fun hnil => hkept (by rw [he,remainingText,hnil]; rfl)
  have hlength : ([SP].intercalate ((tokens q).filterMap (kept casing))).length =
    ([SP].intercalate ((tokens q).filterMap (remaining casing))).length :=
    congrArg List.length he
  omega

theorem overrideText_none {field old : Option JsString} (h : overrideText field old = none) (hfield : field ≠ some []) :
    field = none ∧ old = none := by
  rw [overrideText_eq field old hfield] at h
  exact Option.or_eq_none_iff.mp h

theorem overrideDate_none {field : Option JsString} {old : Option Instant} (h : overrideDate dates field old = none)
    (hgiven : ∀ v ∈ field, v ≠ [])
    (hfield : ∀ v ∈ field, (parseSearchDate dates v).isSome) : field = none ∧ old = none := by
  cases field with
  | none => exact ⟨rfl,h⟩
  | some v =>
    obtain ⟨d,hd⟩ := Option.isSome_iff_exists.mp (hfield v rfl)
    rw [overrideDate_some (hgiven v rfl) hd] at h
    cases h

/-- Nothing is asked where every token is silent and no field given. -/
theorem bare_iff (hfrom : input.from ≠ some []) (hto : input.to ≠ some []) (hafter : ∀ v ∈ input.after, (parseSearchDate dates v).isSome)
    (hbefore : ∀ v ∈ input.before, (parseSearchDate dates v).isSome) : (compiled casing dates input).Bare ↔
      (∀ token ∈ tokens input.q, said casing dates token = .empty) ∧ input.from = none ∧
      input.to = none ∧ input.after = none ∧ input.before = none := by
  rw [compiled_eq]
  constructor
  · rintro ⟨h₁,h₂,h₃,h₄,h₅,h₆,h₇,h₈,h₉⟩
    obtain ⟨hfrom,h₁⟩ := overrideText_none h₁ hfrom
    obtain ⟨hto,h₂⟩ := overrideText_none h₂ hto
    obtain ⟨hbefore,h₆⟩ := overrideDate_none h₆ input.before_given hbefore
    obtain ⟨hafter,h₇⟩ := overrideDate_none h₇ input.after_given hafter
    refine ⟨fun token htoken => ?_,hfrom,hto,hafter,hbefore⟩
    exact eq_empty_iff.mpr ⟨⟨lastOf_eq_none.mp h₁ token htoken,lastOf_eq_none.mp h₂ token htoken,lastOf_eq_none.mp h₃ token htoken,
      lastOf_eq_none.mp h₄ token htoken,lastOf_eq_none.mp h₅ token htoken,lastOf_eq_none.mp h₆ token htoken,
        lastOf_eq_none.mp h₇ token htoken,
      lastOf_eq_none.mp h₈ token htoken,lastOf_eq_none.mp h₉ token htoken⟩,rfl,rfl⟩
  · rintro ⟨hsilent,hfrom,hto,hafter,hbefore⟩
    have hfield {β : Type} {f : Token → Option β} (field : SearchObject → Option β) (hempty : field .empty = none)
        (hf : ∀ token, field (said casing dates token) = f token) : lastOf input.q f = none :=
      lastOf_eq_none.mpr fun token htoken => by rw [← hf,hsilent token htoken,hempty]
    rw [hfrom,hto,hafter,hbefore]
    exact ⟨hfield (·.from) rfl fun _ => rfl,hfield (·.to) rfl fun _ => rfl,hfield (·.cc) rfl fun _ => rfl,
      hfield (·.subject) rfl fun _ => rfl,
      hfield (·.body) rfl fun _ => rfl,hfield (·.before) rfl fun _ => rfl,hfield (·.since) rfl fun _ => rfl,
        hfield (·.seen) rfl fun _ => rfl,
      hfield (·.flagged) rfl fun _ => rfl⟩

/-- Whatever the request, the server is asked for something. -/
theorem build_ne_empty (casing : CaseMapping) (dates : DateParser) (input : SearchRequest) :
    (buildSearchCriteria casing dates input).1 ≠ .empty := by
  rw [buildSearchCriteria]
  split
  · split
    · exact fun he => nomatch congrArg SearchObject.all he
    · exact fun he => nomatch congrArg SearchObject.text he
  · assumption

/-- What the request must be like for each field to come first. -/
theorem honoured_of_follows
    (h : Follows casing dates input (buildSearchCriteria casing dates input).1 (buildSearchCriteria casing dates input).2) :
    Honoured casing dates input := by
  rw [build_eq] at h
  have hafter (v : JsString) (hv : v ∈ input.after) : (parseSearchDate dates v).isSome := by
    obtain ⟨d,hd,-⟩ := h.sinceField v hv
    rw [hd]
    rfl
  have hbefore (v : JsString) (hv : v ∈ input.before) : (parseSearchDate dates v).isSome := by
    obtain ⟨d,hd,-⟩ := h.beforeField v hv
    rw [hd]
    rfl
  have hfrom : input.from ≠ some [] := by
    intro hnil
    have hfield : (compiled casing dates input).from = input.from.or (lastOf input.q (valueFor casing .from)) := h.from
    rw [compiled_eq,hnil,Option.some_or] at hfield
    exact overrideText_ne (lastOf input.q (valueFor casing .from)) (lastOf_valueFor_ne .from) (some []) hfield
  have hto : input.to ≠ some [] := by
    intro hnil
    have hfield : (compiled casing dates input).to = input.to.or (lastOf input.q (valueFor casing .to)) := h.to
    rw [compiled_eq,hnil,Option.some_or] at hfield
    exact overrideText_ne (lastOf input.q (valueFor casing .to)) (lastOf_valueFor_ne .to) (some []) hfield
  refine ⟨hfrom,hto,hafter,hbefore,?_,?_⟩
  · intro hfalse
    have hattachment : (scanQuery casing dates input).hasAttachment = _ := h.attachment
    rw [scanQuery_attachment,hfalse] at hattachment
    simpa using hattachment
  · by_cases hnone : ∀ token ∈ tokens input.q, ¬Hollow casing token
    · exact .inl hnone
    · obtain ⟨token,hmem,hhollow⟩ : ∃ token ∈ tokens input.q, Hollow casing token := by simpa using hnone
      have hremaining : remainingText casing input.q ≠ [] := by
        obtain ⟨-,text,htext⟩ := kept_hollow hhollow
        exact fun hnil => by simp [remainingText_eq_nil.mp hnil token hmem] at htext
      have htext := h.text
      rw [if_pos hremaining] at htext
      dsimp only at htext
      by_cases hkept : keptText casing input.q = []
      · rw [if_neg (not_not_intro hkept)] at htext
        by_cases hlast : (compiled casing dates input).Bare ∧ (scanQuery casing dates input).hasAttachment = false
        · rw [if_pos hlast] at htext
          obtain ⟨hsilent,hfields⟩ := (bare_iff hfrom hto hafter hbefore).mp hlast.1
          have hattachment := hlast.2
          rw [scanQuery_attachment,Bool.or_eq_false_iff,List.any_eq_false] at hattachment
          refine .inr ⟨fun token htoken => ⟨hsilent token htoken,keptText_eq_nil.mp hkept token htoken,?_⟩,?_,(Option.some.inj htext).symm⟩
          · simpa using hattachment.2 token htoken
          · refine ⟨hfields.1,hfields.2.1,hfields.2.2.1,hfields.2.2.2,fun htrue => ?_⟩
            simp [htrue] at hattachment
        · rw [if_neg hlast] at htext
          cases htext
      · rw [if_pos hkept] at htext
        exact absurd (Option.some.inj htext) (keptText_ne hmem hhollow hkept)

theorem follows_of_honoured (h : Honoured casing dates input) :
    Follows casing dates input (buildSearchCriteria casing dates input).1 (buildSearchCriteria casing dates input).2 := by
  obtain ⟨hfrom,hto,hafter,hbefore,hattachment,hunknown⟩ := h
  have hattached : (scanQuery casing dates input).hasAttachment =
    input.has_attachment.getD ((tokens input.q).any (asksAttachment casing)) := by
    rw [scanQuery_attachment]
    cases hgiven : input.has_attachment with
    | none => rfl
    | some asked =>
      cases asked with
      | true => rfl
      | false => simpa [List.any_eq_false] using hattachment hgiven
  -- The text of the query, and what the last resort makes of none.
  have htexts : keptText casing input.q = remainingText casing input.q ∨
    (keptText casing input.q = [] ∧ (compiled casing dates input).Bare ∧
      (scanQuery casing dates input).hasAttachment = false ∧ remainingText casing input.q = trim input.q) := by
    rcases hunknown with hnone | hlone
    · exact .inl (keptText_eq hnone)
    · obtain ⟨hf,ht,ha,hb,hasked⟩ := hlone.fields
      have hany : (tokens input.q).any (asksAttachment casing) = false := by
        simpa [List.any_eq_false] using fun token htoken => (hlone.silent token htoken).2.2
      refine .inr ⟨keptText_eq_nil.mpr fun token htoken => (hlone.silent token htoken).2.1,?_,?_,hlone.text⟩
      · exact (bare_iff hfrom hto hafter hbefore).mpr ⟨fun token htoken => (hlone.silent token htoken).1,hf,ht,ha,hb⟩
      · rw [hattached,hany]
        cases hgiven : input.has_attachment with
        | none => rfl
        | some asked =>
          cases asked with
          | true => exact absurd hgiven hasked
          | false => rfl
  have hempty := build_ne_empty casing dates input
  rw [build_eq] at hempty ⊢
  constructor
  case «from» => rw [compiled_eq]; exact overrideText_eq _ _ hfrom
  case «to» => rw [compiled_eq]; exact overrideText_eq _ _ hto
  case sinceField =>
    intro v hv
    obtain ⟨d,hd⟩ := Option.isSome_iff_exists.mp (hafter v hv)
    rw [compiled_eq,show input.after = some v from hv]
    exact ⟨d,hd,overrideDate_some (input.after_given v hv) hd _⟩
  case beforeField =>
    intro v hv
    obtain ⟨d,hd⟩ := Option.isSome_iff_exists.mp (hbefore v hv)
    rw [compiled_eq,show input.before = some v from hv]
    exact ⟨d,hd,overrideDate_some (input.before_given v hv) hd _⟩
  case sinceQuery => intro hnone; rw [compiled_eq,hnone]; rfl
  case beforeQuery => intro hnone; rw [compiled_eq,hnone]; rfl
  case attachment => exact hattached
  case cc | subject | body | seen | flagged => rw [compiled_eq]
  case text =>
    rcases htexts with hsame | ⟨hkept,hbare,hoff,htrim⟩
    · rw [hsame]
      rfl
    · have hlast : (compiled casing dates input).Bare ∧ (scanQuery casing dates input).hasAttachment = false := ⟨hbare,hoff⟩
      change (if keptText casing input.q ≠ [] then _
        else if (compiled casing dates input).Bare ∧ (scanQuery casing dates input).hasAttachment = false
          then some (trim input.q) else none) =
        if remainingText casing input.q ≠ [] then _
          else if (compiled casing dates input).Bare ∧ (scanQuery casing dates input).hasAttachment = false
          then some (trim input.q) else none
      rw [if_neg (not_not_intro hkept),if_pos hlast,htrim]
      split
      · rfl
      · rfl
  case all =>
    rcases htexts with hsame | ⟨hkept,hbare,hoff,htrim⟩
    · rw [hsame]
      rfl
    · have hon : ¬(scanQuery casing dates input).hasAttachment = true := by simp [hoff]
      change (if keptText casing input.q = [] ∧ (compiled casing dates input).Bare ∧ (scanQuery casing dates input).hasAttachment = true
          then some true else none) =
        if remainingText casing input.q = [] ∧ (compiled casing dates input).Bare ∧ (scanQuery casing dates input).hasAttachment = true
          then some true else none
      rw [if_neg fun hboth => hon hboth.2.2,if_neg fun hboth => hon hboth.2.2]
  case nonempty => exact hempty

/-- The fields of a request override its query when none of them is an empty address, a date that cannot be read, or an
attachment filter turned off beside `has:attachment`, and no unknown operator of the query is without a value. -/
theorem fields_override_iff (casing : CaseMapping) (dates : DateParser) (input : SearchRequest) :
    Follows casing dates input (buildSearchCriteria casing dates input).1 (buildSearchCriteria casing dates input).2 ↔
    Honoured casing dates input :=
  ⟨honoured_of_follows,follows_of_honoured⟩

/-- `?q=has:attachment report&has_attachment=false`. -/
def withoutFiles : SearchRequest where
  q := js "has:attachment report"
  «from» := none
  «to» := none
  has_attachment := some false
  after := none
  before := none
  q_length := by decide
  from_length := nofun
  to_length := nofun
  after_given := nofun
  before_given := nofun

theorem files_wanted : (buildSearchCriteria asciiCase isoParser withoutFiles).2 = true ∧
    ¬∀ casing dates input, Follows casing dates input (buildSearchCriteria casing dates input).1
    (buildSearchCriteria casing dates input).2 := by
  have hon : (buildSearchCriteria asciiCase isoParser withoutFiles).2 = true := by decide
  refine ⟨hon,fun h => ?_⟩
  have hattachment := (h asciiCase isoParser withoutFiles).attachment
  rw [hon] at hattachment
  exact absurd hattachment (by decide)

end Exactness
end JustMail.Webmail.Search
