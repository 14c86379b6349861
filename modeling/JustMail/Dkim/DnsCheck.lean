import JustMail.Dkim.DnsReconcile
import JustMail.Foundation.Infixes
import JustMail.Foundation.KeyedTable

/-! `checkRecords` of `dns.service.ts`: every expected record of a domain is looked up, and its
status tells whether the answer is the expected one. -/
namespace JustMail.Dkim
open Foundation

section Model

structure Address where
  text : JsString
  plain : ∀ c ∈ text, isDigit c = true ∨ isAsciiLetter c = true ∨ c = DOT ∨ c = unit ':'
  deriving DecidableEq

structure MxAnswer where
  priority : Nat
  exchange : JsString
  deriving DecidableEq

/-- A CAA record as the resolver returns it: its flag, and those of its properties that are strings. -/
structure CaaAnswer where
  critical : Nat
  properties : List (JsString × JsString)

structure DnsError where
  code : Option JsString
  message : JsString

/-- What the resolver answers to each query, which may be an error. For a type that is none of those here, the
answer is the text of its JSON. -/
structure Resolver where
  resolveTxt : JsString → Except DnsError (List (List JsString))
  resolveMx : JsString → Except DnsError (List MxAnswer)
  resolveCname : JsString → Except DnsError (List JsString)
  resolveCaa : JsString → Except DnsError (List CaaAnswer)
  resolveAddresses : JsString → JsString → Except DnsError (List Address)
  resolveOther : JsString → JsString → Except DnsError JsString

inductive CheckStatus where
  | unknown | pending | propagating | ok | drifted | missing | error
  deriving DecidableEq

/-- A row of `dns_records`, as far as the check reads and writes it. -/
structure DnsRow where
  id : Nat
  domainId : Nat
  type : JsString
  name : JsString
  content : JsString
  observedContent : Option JsString
  checkStatus : CheckStatus
  lastCheckedAt : Option Nat

abbrev DnsRecords := Table DnsRow.id

def A : JsString := js "A"
def AAAA : JsString := js "AAAA"

/-- The answers that `resolveOne` flattens. -/
inductive Answers where
  | txt (records : List (List JsString))
  | mx (records : List MxAnswer)
  | cname (records : List JsString)
  | addresses (records : List Address)
  | other (json : JsString)

/-- The answers that are shown side by side, each as its text. -/
def Answers.shown : Answers → List JsString
  | .txt records => records.map List.flatten
  | .mx records => records.map fun m => decimal m.priority ++ unit ' ' :: m.exchange
  | .cname records => records
  | .addresses records => records.map Address.text
  | .other _ => []

def BAR : JsString := js " | "

/-- `JSON.stringify` of texts that need no escapes. -/
def stringify (texts : List JsString) : JsString :=
  unit '[' :: ((js ",").intercalate (texts.map fun a => QUOTE :: (a ++ [QUOTE])) ++ [unit ']'])

/-- The one text that they are flattened to. -/
def Answers.text (answers : Answers) : JsString :=
  match answers with
  | .txt _ | .mx _ | .cname _ => BAR.intercalate answers.shown
  | .addresses _ => stringify answers.shown
  | .other json => json

variable (resolver : Resolver)

/-- The query that `resolveOne` makes. -/
def Resolver.query (type name : JsString) : Except DnsError Answers :=
  if type = TXT then (resolver.resolveTxt name).map .txt
  else if type = MX then (resolver.resolveMx name).map .mx
  else if type = CNAME then (resolver.resolveCname name).map .cname
  else if type = A ∨ type = AAAA then (resolver.resolveAddresses type name).map .addresses
  else (resolver.resolveOther type name).map .other

def resolveOne (type name : JsString) : Except DnsError JsString := (resolver.query type name).map Answers.text

variable (cm : CaseMapping)

/-- `parseCaa` of an object. -/
def CaaAnswer.parse (x : CaaAnswer) : Option CaaTuple :=
  ([js "issue",js "issuewild",js "iodef",js "contactemail",js "contactphone"].findSome? fun tag =>
    (x.properties.lookup tag).map fun v => ⟨x.critical,tag,cm.toLowerCase (trim v)⟩)

/-- `matches ? "ok" : observed ? "drifted" : "missing"`. -/
def statusOf (matched : Bool) (observed : Option JsString) : CheckStatus :=
  if matched then .ok else if (observed.any fun s => !s.isEmpty) then .drifted else .missing

/-- The `try` block. -/
def tryCheck (r : DnsRow) : Except DnsError (Option JsString × CheckStatus) :=
  if r.type = CAA then do
    let recs ← resolver.resolveCaa r.name
    let parsed := recs.filterMap (CaaAnswer.parse cm)
    let observed := if parsed.isEmpty then none else some (BAR.intercalate (parsed.map caaToString))
    return (observed,statusOf (parsed.any fun p => parseCaa cm r.content = some p) observed)
  else do
    let observed ← resolveOne resolver r.type r.name
    return (some observed,statusOf (strip r.content <:+: observed) (some observed))

/-- The outcome of one turn of the loop. -/
def checkRow (r : DnsRow) : Option JsString × CheckStatus :=
  match tryCheck resolver cm r with
  | .ok outcome => outcome
  | .error err =>
    if err.code = some (js "ENOTFOUND") ∨ err.code = some (js "ENODATA") then (none,.missing) else (some err.message,.error)

def recordCheck (now : Nat) (outcome : Option JsString × CheckStatus) (r : DnsRow) : DnsRow :=
  { r with observedContent := outcome.1, checkStatus := outcome.2, lastCheckedAt := some now }

theorem recordCheck_id (now : Nat) (outcome : Option JsString × CheckStatus) (r : DnsRow) : (recordCheck now outcome r).id = r.id := rfl

/-- The body of the loop, at the time of its update. -/
def checkTurn (now : Nat) (records : DnsRecords) (r : DnsRow) : DnsRecords :=
  records.updateWhere (·.id == r.id) (recordCheck now (checkRow resolver cm r)) (recordCheck_id now _)

def checkRecords (now : Nat) (records : DnsRecords) (domainId : Nat) : DnsRecords :=
  (records.rows.filter (·.domainId == domainId)).foldl (checkTurn resolver cm now) records

/-- What each single answer says. -/
def Answers.values : Answers → List JsString
  | .txt records => records.map List.flatten
  | .mx records => records.map MxAnswer.exchange
  | .cname records => records
  | .addresses records => records.map Address.text
  | .other _ => []

/-- The units that are only between answers, or around them. -/
def Answers.joint : Answers → JsString
  | .txt _ | .mx _ | .cname _ => js "|"
  | .addresses _ => js "[\",]"
  | .other json => json

/-- The types whose answers are compared here. -/
def comparedTypes : List JsString := [TXT,MX,CNAME,A,AAAA]

/-- The expected text is one of the answers; or else it is not empty, no part of a single answer, and not pieced
together over the end of one, which takes a unit from between them. -/
def NoNearMiss (answers : Answers) (expected : JsString) : Prop :=
  expected ∈ answers.values ∨
    (expected ≠ [] ∧ (∀ a ∈ answers.shown, ¬expected <:+: a) ∧ ((∃ c ∈ expected, c ∈ answers.joint) → ¬expected <:+: answers.text))

end Model

section Texts
variable {answers : Answers} {s : JsString}

/-- Answers of the types that are compared. -/
def Answers.listed : Answers → Bool
  | .other _ => false
  | _ => true

theorem shown_infix_text (hlisted : answers.listed = true) {a : JsString} (h : a ∈ answers.shown) : a <:+: answers.text := by
  cases answers with
  | txt records => exact infix_intercalate h
  | mx records => exact infix_intercalate h
  | cname records => exact infix_intercalate h
  | addresses records =>
    have hquoted : a <:+: QUOTE :: (a ++ [QUOTE]) := ⟨[QUOTE],[QUOTE],rfl⟩
    have hjoined : QUOTE :: (a ++ [QUOTE]) <:+:
        (js ",").intercalate ((Answers.addresses records).shown.map fun a => QUOTE :: (a ++ [QUOTE])) :=
      infix_intercalate (List.mem_map_of_mem (f := fun a => QUOTE :: (a ++ [QUOTE])) h)
    exact (hquoted.trans hjoined).trans ⟨[unit '['],[unit ']'],rfl⟩
  | other json => exact absurd hlisted nofun

/-- What is trimmed does not reach into the blanks beside a bar. -/
private theorem infix_shown_bar {parts : List JsString} (h : trim s <:+: BAR.intercalate parts) (hbar : unit '|' ∉ trim s) :
    trim s = [] ∨ ∃ a ∈ parts, trim s <:+: a := by
  have hspace : isSpace (unit ' ') = true := by decide
  refine infix_of_intercalate (l := [unit ' ']) (r := [unit ' ']) h hbar (fun x hx => infix_of_snoc hx fun d hd he => ?_)
    fun x hx => infix_of_cons hx fun d hd he => ?_
  · have hlast := trim_getLast? d hd
    simp [he,hspace] at hlast
  · have hhead := trim_head? d hd
    simp [he,hspace] at hhead

private theorem infix_of_stringify {parts : List JsString} (h : s <:+: stringify parts) (hjoint : ∀ c ∈ s, c ∉ js "[\",]") :
    s = [] ∨ ∃ a ∈ parts, s <:+: a := by
  have hout : ∀ c ∈ js "[\",]", c ∉ s := fun c hc hs => hjoint c hs hc
  rcases infix_append_cons (x := []) h (hout (unit '[') (by decide)) with hnil | hrest
  · exact .inl (List.infix_nil.mp hnil)
  · rcases infix_append_cons (y := []) hrest (hout (unit ']') (by decide)) with hjoined | hnil
    · rcases infix_of_intercalate (l := []) (r := []) hjoined (hout (unit ',') (by decide)) (fun x hx => by simpa using hx)
        (fun x hx => hx) with hnil | ⟨quoted,hquoted,hpart⟩
      · exact .inl hnil
      · obtain ⟨a,ha,rfl⟩ := List.mem_map.mp hquoted
        have hquote : QUOTE ∉ s := hout QUOTE (by decide)
        rcases infix_append_cons (x := []) hpart hquote with hnil | hend
        · exact .inl (List.infix_nil.mp hnil)
        · rcases infix_append_cons (y := []) hend hquote with hin | hnil
          · exact .inr ⟨a,ha,hin⟩
          · exact .inl (List.infix_nil.mp hnil)
    · exact .inl (List.infix_nil.mp hnil)

/-- Without a unit from between the answers, a text is part of a single one. -/
theorem infix_shown (hlisted : answers.listed = true) (h : trim s <:+: answers.text) (hjoint : ∀ c ∈ trim s, c ∉ answers.joint) :
    trim s = [] ∨ ∃ a ∈ answers.shown, trim s <:+: a := by
  have hsign : unit '|' ∈ js "|" := by decide
  cases answers with
  | txt records => exact infix_shown_bar h fun hbar => hjoint _ hbar hsign
  | mx records => exact infix_shown_bar h fun hbar => hjoint _ hbar hsign
  | cname records => exact infix_shown_bar h fun hbar => hjoint _ hbar hsign
  | addresses records => exact infix_of_stringify h hjoint
  | other json => exact absurd hlisted nofun

end Texts

section Turns
variable {resolver : Resolver} {cm : CaseMapping} {now : Nat} {rows : List DnsRow} {records : DnsRecords} {r r₀ : DnsRow}

theorem lookup_turns_other {id : Nat} (h : ∀ r ∈ rows, r.id ≠ id) :
    (rows.foldl (checkTurn resolver cm now) records).lookup id = records.lookup id := by
  induction rows generalizing records with
  | nil => rfl
  | cons r rows ih =>
    rw [List.foldl_cons,ih fun r' hr' => h r' (List.mem_cons_of_mem r hr'),checkTurn,Table.lookup_updateWhere]
    cases hrow : records.lookup id with
    | none => rfl
    | some r' =>
      have hne : r'.id ≠ r.id := fun he => h r List.mem_cons_self (he.symm.trans (Table.key_of_lookup hrow))
      rw [Option.map_some,if_neg (by simpa using hne)]

/-- A row that has its turn is updated with what its own check has given. -/
theorem lookup_turns (hnodup : (rows.map DnsRow.id).Nodup) (hr : r ∈ rows) (hrow : records.lookup r.id = some r₀) :
    (rows.foldl (checkTurn resolver cm now) records).lookup r.id = some (recordCheck now (checkRow resolver cm r) r₀) := by
  induction rows generalizing records with
  | nil => exact absurd hr List.not_mem_nil
  | cons first rows ih =>
    rw [List.map_cons,List.nodup_cons] at hnodup
    rw [List.foldl_cons]
    rcases List.mem_cons.mp hr with rfl | hrest
    · rw [lookup_turns_other fun r' hr' he => hnodup.1 (List.mem_map.mpr ⟨r',hr',he⟩),checkTurn,Table.lookup_updateWhere,hrow,
        Option.map_some,if_pos (by simpa using Table.key_of_lookup hrow)]
    · have hne : r.id ≠ first.id := fun he => hnodup.1 (he ▸ List.mem_map_of_mem hrest)
      refine ih hnodup.2 hrest ?_
      rw [checkTurn,Table.lookup_updateWhere,hrow,Option.map_some,if_neg]
      have hid : r₀.id = r.id := Table.key_of_lookup hrow
      simpa [hid] using hne

theorem lookup_checkRecords {domainId : Nat} (hr : r ∈ records.rows) (hdomain : r.domainId = domainId) :
    (checkRecords resolver cm now records domainId).lookup r.id = some (recordCheck now (checkRow resolver cm r) r) := by
  refine lookup_turns ?_ (List.mem_filter.mpr ⟨hr,by simpa using hdomain⟩) (Table.lookup_of_mem hr)
  exact records.unique.sublist (List.filter_sublist.map _)

end Turns

section Sound
variable {resolver : Resolver} {cm : CaseMapping} {r : DnsRow} {type name : JsString} {answers : Answers}

theorem query_listed (htype : type ∈ comparedTypes) (h : resolver.query type name = .ok answers) : answers.listed = true := by
  have hmap : ∀ {α : Type} {found : Except DnsError α} {f : α → Answers}, found.map f = .ok answers → ∃ a, f a = answers := by
    intro α found f hok
    cases found with
    | error e => exact absurd hok nofun
    | ok a => exact ⟨a,Except.ok.inj hok⟩
  rw [Resolver.query] at h
  split_ifs at h with htxt hmx hcname haddress
  · obtain ⟨a,rfl⟩ := hmap h
    rfl
  · obtain ⟨a,rfl⟩ := hmap h
    rfl
  · obtain ⟨a,rfl⟩ := hmap h
    rfl
  · obtain ⟨a,rfl⟩ := hmap h
    rfl
  · simp [comparedTypes,htxt,hmx,hcname] at htype
    exact absurd htype haddress

theorem statusOf_ok {matched : Bool} {observed : Option JsString} : statusOf matched observed = .ok ↔ matched = true := by
  cases matched with
  | true => exact iff_of_true rfl rfl
  | false =>
    refine ⟨fun h => ?_,nofun⟩
    rw [statusOf,if_neg Bool.false_ne_true] at h
    split at h <;> exact absurd h nofun

theorem checkRow_ok_iff (htype : r.type ∈ comparedTypes) :
    (checkRow resolver cm r).2 = .ok ↔ ∃ answers, resolver.query r.type r.name = .ok answers ∧ strip r.content <:+: answers.text := by
  have hcaa : r.type ≠ CAA := by
    intro he
    rw [he] at htype
    exact absurd htype (by decide)
  rw [checkRow,tryCheck,if_neg hcaa,resolveOne]
  cases hquery : resolver.query r.type r.name with
  | error e =>
    refine ⟨fun h => ?_,fun ⟨_,h,_⟩ => absurd h nofun⟩
    simp only [Except.map,bind,Except.bind] at h
    split at h <;> exact absurd h nofun
  | ok answers =>
    simp only [Except.map,bind,Except.bind,pure,Except.pure,statusOf_ok,decide_eq_true_eq]
    refine ⟨fun h => ⟨answers,rfl,h⟩,?_⟩
    rintro ⟨answers',hsame,hin⟩
    exact Except.ok.inj hsame ▸ hin

/-- A check is sound exactly where nothing comes close to the expected record without being it. -/
theorem green_check_sound_iff (resolver : Resolver) (cm : CaseMapping) (now : Nat) (records : DnsRecords)
    (r : DnsRow) (hr : r ∈ records.rows)
    (htype : r.type ∈ comparedTypes) :
    ∃ r', (checkRecords resolver cm now records r.domainId).lookup r.id = some r' ∧
      ((r'.checkStatus = .ok → ∃ answers, resolver.query r.type r.name = .ok answers ∧ strip r.content ∈ answers.values) ↔
        ∀ answers, resolver.query r.type r.name = .ok answers → NoNearMiss answers (strip r.content)) := by
  refine ⟨_,lookup_checkRecords hr rfl,?_⟩
  dsimp only [recordCheck]
  rw [checkRow_ok_iff htype]
  constructor
  · intro hsound answers hanswers
    by_cases hvalue : strip r.content ∈ answers.values
    · exact .inl hvalue
    · have hlisted := query_listed htype hanswers
      have hnot : ¬strip r.content <:+: answers.text := by
        intro hwithin
        obtain ⟨answers',hanswers',hvalue'⟩ := hsound ⟨answers,hanswers,hwithin⟩
        obtain rfl : answers = answers' := Except.ok.inj (hanswers.symm.trans hanswers')
        exact hvalue hvalue'
      refine .inr ⟨fun hnil => ?_,fun a ha hpart => ?_,fun _ => hnot⟩
      · exact hnot (hnil ▸ List.nil_infix)
      · exact hnot (hpart.trans (shown_infix_text hlisted ha))
  · rintro hclear ⟨answers,hanswers,hwithin⟩
    refine ⟨answers,hanswers,(hclear answers hanswers).resolve_right ?_⟩
    rintro ⟨hne,hpart,hpieced⟩
    by_cases hjoint : ∃ c ∈ strip r.content, c ∈ answers.joint
    · exact hpieced hjoint hwithin
    · have hplain : ∀ c ∈ strip r.content, c ∉ answers.joint := fun c hc hin => hjoint ⟨c,hc,hin⟩
      rcases infix_shown (query_listed htype hanswers) hwithin hplain with hnil | ⟨a,ha,hin⟩
      · exact hne hnil
      · exact hpart a ha hin

def mxRow : DnsRow := ⟨1,7,MX,js "example.com",js "mx.example.com",none,.unknown,none⟩

def onlyRow (r : DnsRow) : DnsRecords := ⟨[r],List.nodup_singleton _⟩

def answerMx (exchange : String) : Resolver :=
  ⟨fun _ => .ok [],fun _ => .ok [⟨10,js exchange⟩],fun _ => .ok [],fun _ => .ok [],fun _ _ => .ok [],fun _ _ => .ok []⟩

/-- Mail goes elsewhere, and the check is green. -/
theorem foreign_exchanger_green : ¬∀ (resolver : Resolver) (records : DnsRecords) (r r' : DnsRow), r ∈ records.rows →
    r.type ∈ comparedTypes →
    (checkRecords resolver asciiCase 0 records r.domainId).lookup r.id = some r' → r'.checkStatus = .ok →
    ∃ answers, resolver.query r.type r.name = .ok answers ∧ strip r.content ∈ answers.values := by
  intro h
  obtain ⟨answers,hanswers,hvalue⟩ := h (answerMx "mx.example.com.evil.net") (onlyRow mxRow) mxRow _ List.mem_cons_self (by decide)
    (lookup_checkRecords List.mem_cons_self rfl) (by decide +kernel)
  obtain rfl : Answers.mx [⟨10,js "mx.example.com.evil.net"⟩] = answers := Except.ok.inj hanswers
  exact absurd hvalue (by decide)

theorem own_exchanger_sound : ∃ r', (checkRecords (answerMx "mx.example.com") asciiCase 0 (onlyRow mxRow) 7).lookup 1 = some r' ∧
    (r'.checkStatus = .ok → ∃ answers, (answerMx "mx.example.com").query MX (js "example.com") = .ok answers ∧
      strip (js "mx.example.com") ∈ answers.values) := by
  obtain ⟨r',hr',hsound⟩ :=
    green_check_sound_iff (answerMx "mx.example.com") asciiCase 0 (onlyRow mxRow) mxRow List.mem_cons_self (by decide)
  refine ⟨r',hr',hsound.mpr fun answers hanswers => .inl ?_⟩
  obtain rfl : Answers.mx [⟨10,js "mx.example.com"⟩] = answers := Except.ok.inj hanswers
  decide

end Sound
end JustMail.Dkim
