import JustMail.Contacts.VCard

/-! What a serialized contact is read back as. -/
namespace JustMail.Contacts
open Foundation Dav.ContentLine
variable {name : JsString}

theorem escapeValue_eq (v : JsString) : escapeValue v = escapeWith BACKSLASH textCode v := by
  simp only [escapeValue,replaceUnit,List.flatMap_assoc]
  refine flatMap_eq_escape (by decide) (by decide) (by decide) (by decide) (fun c h1 h2 h3 h4 => ?_) v
  simp [h1,h2,h3,h4]

theorem unescapeValue_escapeValue (v : JsString) : unescapeValue (escapeValue v) = v := by
  rw [escapeValue_eq]
  exact unescape_escape textCode_spec v

theorem cutUnquoted_append {head : JsString} (hq : unit '"' ∉ head) (hc : unit ':' ∉ head) (value : JsString) :
    cutUnquoted false (head ++ unit ':' :: value) = some (head,value) := by
  induction head with
  | nil => simp [cutUnquoted,show unit ':' ≠ unit '"' by decide]
  | cons c head ih =>
    rw [List.mem_cons,not_or] at hq hc
    rw [List.cons_append,cutUnquoted,if_neg (Ne.symm hq.1),if_neg (fun h => hc.1 h.1.symm),ih hq.2 hc.2]
    rfl

def typeParams : Option JsString → List (JsString × List JsString)
  | none => []
  | some label => if label = [] then [] else [(js "TYPE",[escapeParam label])]

private theorem notMem_escapeParam {c : CodeUnit} (v : JsString)
    (hc : (c == unit '"' || c == unit ';' || c == unit ':' || c == unit ',') = true) : c ∉ escapeParam v := by
  intro hm
  have := (List.mem_filter.mp (trim_subset hm)).2
  simp [hc] at this

private theorem addSegment_type (casing : CaseMapping) (label : JsString) :
    addSegment casing [] (js "TYPE=" ++ escapeParam label) = [(js "TYPE",[escapeParam label])] := by
  have hcut : cut (unit '=') (js "TYPE=" ++ escapeParam label) = some (js "TYPE",escapeParam label) :=
    cut_append (s := js "TYPE") (by decide)
  have hup : casing.toUpperCase (js "TYPE") = js "TYPE" := IsName.upper (by decide) casing
  have hstrip : stripQuotes (escapeParam label) = escapeParam label := by
    refine List.filter_eq_self.mpr fun c hc => ?_
    by_contra hq
    simp only [Bool.not_eq_true',Bool.not_eq_false,beq_iff_eq] at hq
    exact notMem_escapeParam label (by simp [hq]) hc
  rw [addSegment,hcut]
  simp only [hup]
  rw [List.splitOn_eq_singleton (notMem_escapeParam label (by decide)),List.map_singleton,hstrip]
  rfl

private theorem parseProperty_head (casing : CaseMapping) {head : JsString} (hq : unit '"' ∉ head)
    (hc : unit ':' ∉ head) (value : JsString) :
    parseProperty casing (head ++ js ":" ++ value) = some
      { name := casing.toUpperCase ((splitUnescaped head (unit ';')).headD [])
        params := (splitUnescaped head (unit ';')).tail.foldl (addSegment casing) []
        value } := by
  have he : head ++ js ":" ++ value = head ++ unit ':' :: value := by
    rw [List.append_assoc]
    rfl
  rw [he,parseProperty,cutUnquoted_append hq hc]

theorem parseProperty_line (casing : CaseMapping) (h : IsName name) (label : Option JsString)
    (value : JsString) :
    parseProperty casing (name ++ typeParam label ++ js ":" ++ value) =
      some ⟨name,typeParams label,value⟩ := by
  have hq : unit '"' ∉ name := h.notMem (by decide)
  have hc : unit ':' ∉ name := h.notMem (by decide)
  have hd : unit ';' ∉ name := h.notMem (by decide)
  have hb : BACKSLASH ∉ name := h.notMem (by decide)
  have bare : parseProperty casing (name ++ js ":" ++ value) = some ⟨name,[],value⟩ := by
    rw [parseProperty_head casing hq hc,splitUnescaped,splitUnescapedFrom_of_notMem [] name hd]
    simp [h.upper]
  cases label with
  | none => simpa only [typeParam,typeParams,List.append_nil] using bare
  | some label =>
    by_cases hl : label = []
    · simpa only [typeParam,typeParams,hl,if_true,List.append_nil] using bare
    · have hsplit : splitUnescaped (name ++ (js ";TYPE=" ++ escapeParam label)) (unit ';') =
          [name,js "TYPE=" ++ escapeParam label] := by
        have hrest : unit ';' ∉ js "TYPE=" ++ escapeParam label := by
          rw [List.mem_append,not_or]
          exact ⟨by decide,notMem_escapeParam label (by decide)⟩
        change splitUnescapedFrom _ _ [] (name ++ unit ';' :: (js "TYPE=" ++ escapeParam label)) = _
        rw [splitUnescapedFrom_delim (by decide) hd hb,splitUnescapedFrom_of_notMem _ _ hrest]
        rfl
      have hq' : unit '"' ∉ name ++ (js ";TYPE=" ++ escapeParam label) := by
        simp only [List.mem_append,not_or]
        exact ⟨hq,by decide,notMem_escapeParam label (by decide)⟩
      have hc' : unit ':' ∉ name ++ (js ";TYPE=" ++ escapeParam label) := by
        simp only [List.mem_append,not_or]
        exact ⟨hc,by decide,notMem_escapeParam label (by decide)⟩
      rw [typeParam,if_neg hl,parseProperty_head casing hq' hc',hsplit,typeParams,if_neg hl]
      simp [h.upper,addSegment_type]

/-- The label a line written for `label` is read back with. -/
def readLabel (casing : CaseMapping) : Option JsString → Option JsString
  | none => none
  | some label => if label = [] then none else some (casing.toLowerCase (escapeParam label))

theorem firstType_typeParams (casing : CaseMapping) (name value : JsString) (label : Option JsString) :
    firstType casing ⟨name,typeParams label,value⟩ = readLabel casing label := by
  cases label with
  | none => rfl
  | some label =>
    by_cases hl : label = []
    · simp [firstType,typeParams,readLabel,hl]
    · simp only [firstType,typeParams,readLabel,hl,if_false,List.lookup_cons_self]
      by_cases hp : casing.toLowerCase (escapeParam label) = js "pref" <;> simp [hp]

private theorem name_append_ne_nil (h : IsName name) (s : JsString) : name ++ s ≠ [] := by
  simp [h.1]

theorem readLine_line (casing : CaseMapping) (st : CardState) (h : IsName name)
    (label : Option JsString) (value : JsString) :
    readLine casing st (name ++ typeParam label ++ js ":" ++ value) =
      applyProperty casing st ⟨name,typeParams label,value⟩ := by
  rw [readLine,parseProperty_line casing h,if_neg]
  rw [List.append_assoc,List.append_assoc]
  exact name_append_ne_nil h _

theorem readLine_bare (casing : CaseMapping) (st : CardState) (h : IsName name)
    (value : JsString) :
    readLine casing st (name ++ js ":" ++ value) = applyProperty casing st ⟨name,[],value⟩ := by
  simpa only [typeParam,typeParams,List.append_nil] using readLine_line casing st h none value

section Switch
variable (casing : CaseMapping) (st : CardState) (params : List (JsString × List JsString)) (value : JsString)

@[simp] theorem applyProperty_uid : applyProperty casing st ⟨js "UID",params,value⟩ =
    { st with uid := stripUrn (unescapeValue value) } := by simp +decide [applyProperty]

@[simp] theorem applyProperty_fn : applyProperty casing st ⟨js "FN",params,value⟩ =
    { st with fn := unescapeValue value } := by simp +decide [applyProperty]

@[simp] theorem applyProperty_n : applyProperty casing st ⟨js "N",params,value⟩ =
    { st with nFallback := displayName ((splitUnescaped value (unit ';')).map unescapeValue) } := by
  simp +decide [applyProperty]

@[simp] theorem applyProperty_email : applyProperty casing st ⟨js "EMAIL",params,value⟩ =
    if trim (unescapeValue value) = [] then st
    else { st with emails := st.emails ++ [⟨trim (unescapeValue value),firstType casing ⟨js "EMAIL",params,value⟩⟩] } := by
  simp +decide [applyProperty]

@[simp] theorem applyProperty_tel : applyProperty casing st ⟨js "TEL",params,value⟩ =
    if trim (unescapeValue value) = [] then st
    else { st with phones := st.phones ++ [⟨trim (unescapeValue value),firstType casing ⟨js "TEL",params,value⟩⟩] } := by
  simp +decide [applyProperty]

@[simp] theorem applyProperty_org : applyProperty casing st ⟨js "ORG",params,value⟩ =
    { st with organization := orNull (trim (((splitUnescaped value (unit ';')).map unescapeValue).headD [])) } := by
  simp +decide [applyProperty]

@[simp] theorem applyProperty_note : applyProperty casing st ⟨js "NOTE",params,value⟩ =
    { st with note := orNull (unescapeValue value) } := by simp +decide [applyProperty]

end Switch

private theorem emailUnit_graphic {c : CodeUnit} (h : isEmailUnit c = true) : 33 ≤ c ∧ c < 128 := by
  simp only [isEmailUnit,unit] at h
  grind

section Groups
variable (casing : CaseMapping)

private theorem read_emails (es : List VCardEmail) (hes : ∀ e ∈ es, IsEmail e.address) (st : CardState) :
    (es.map emailLine).foldl (readLine casing) st =
      { st with emails := st.emails ++ es.map fun e => ⟨e.address,readLabel casing e.label⟩ } := by
  induction es generalizing st with
  | nil => simp
  | cons e es ih =>
    have he := hes e (by simp)
    have ht : trim (unescapeValue (escapeValue e.address)) = e.address := by
      rw [unescapeValue_escapeValue]
      refine trim_eq_self_of_forall fun c hc => ?_
      obtain ⟨hlo,hhi⟩ := emailUnit_graphic (he.2.2 c hc)
      exact isSpace_of_graphic hlo hhi
    rw [List.map_cons,List.foldl_cons,emailLine,readLine_line casing st (by decide),applyProperty_email,ht,
      if_neg he.1,firstType_typeParams,ih fun e h => hes e (by simp [h])]
    simp

private theorem read_phones (ps : List VCardPhone) (hps : ∀ p ∈ ps, trim p.number ≠ []) (st : CardState) :
    (ps.map phoneLine).foldl (readLine casing) st =
      { st with phones := st.phones ++ ps.map fun p => ⟨trim p.number,readLabel casing p.label⟩ } := by
  induction ps generalizing st with
  | nil => simp
  | cons p ps ih =>
    rw [List.map_cons,List.foldl_cons,phoneLine,readLine_line casing st (by decide),applyProperty_tel,
      unescapeValue_escapeValue,if_neg (hps p (by simp)),firstType_typeParams,ih fun p h => hps p (by simp [h])]
    simp

private theorem read_organization (org : Option JsString) (st : CardState) (hst : st.organization = none) :
    (optionalLine (js "ORG") org).foldl (readLine casing) st =
      { st with organization := org.bind fun o => orNull (trim o) } := by
  have hsame : { st with organization := none } = st := by rw [← hst]
  cases org with
  | none => exact hsame.symm
  | some o =>
    by_cases ho : o = []
    · subst ho
      exact hsame.symm
    · have hsplit : splitUnescaped (escapeValue o) (unit ';') = [escapeValue o] := by
        have h : splitUnescapedFrom BACKSLASH (unit ';') [] (escapeWith BACKSLASH textCode o ++ []) = _ :=
          splitUnescapedFrom_escape textCode_spec.escaped (by decide) [] o []
        rwa [List.append_nil,← escapeValue_eq] at h
      rw [optionalLine,if_neg ho,List.foldl_cons,List.foldl_nil,readLine_bare casing st (by decide),
        applyProperty_org,hsplit]
      simp [unescapeValue_escapeValue]

private theorem read_note (note : Option JsString) (st : CardState) (hst : st.note = none) :
    (optionalLine (js "NOTE") note).foldl (readLine casing) st = { st with note := note.bind orNull } := by
  have hsame : { st with note := none } = st := by rw [← hst]
  cases note with
  | none => exact hsame.symm
  | some n =>
    by_cases hn : n = []
    · subst hn
      exact hsame.symm
    · rw [optionalLine,if_neg hn,List.foldl_cons,List.foldl_nil,readLine_bare casing st (by decide),
        applyProperty_note,unescapeValue_escapeValue]
      rfl

private theorem read_begin (st : CardState) :
    readLine casing st (js "BEGIN:VCARD") = { st with inCard := true } := by
  have hu : casing.toUpperCase (js "VCARD") = js "VCARD" := IsName.upper (by decide) casing
  rw [show js "BEGIN:VCARD" = js "BEGIN" ++ js ":" ++ js "VCARD" by decide,readLine_bare casing st (by decide)]
  simp [applyProperty,hu]

private theorem read_end (st : CardState) :
    readLine casing st (js "END:VCARD") = { st with inCard := false } := by
  rw [show js "END:VCARD" = js "END" ++ js ":" ++ js "VCARD" by decide,readLine_bare casing st (by decide)]
  simp +decide [applyProperty]

private theorem read_version (st : CardState) : readLine casing st (js "VERSION:3.0") = st := by
  rw [show js "VERSION:3.0" = js "VERSION" ++ js ":" ++ js "3.0" by decide,readLine_bare casing st (by decide)]
  simp +decide [applyProperty]

private theorem read_prodid (st : CardState) : readLine casing st (js "PRODID:" ++ PRODID) = st := by
  rw [show js "PRODID:" ++ PRODID = js "PRODID" ++ js ":" ++ PRODID by decide,
    readLine_bare casing st (by decide)]
  simp +decide [applyProperty]

private theorem read_uid (st : CardState) (uid : JsString) :
    readLine casing st (js "UID:" ++ escapeValue uid) = { st with uid := stripUrn uid } := by
  rw [show js "UID:" = js "UID" ++ js ":" by decide,readLine_bare casing st (by decide),applyProperty_uid,
    unescapeValue_escapeValue]

private theorem read_fn (st : CardState) (name : JsString) :
    readLine casing st (js "FN:" ++ escapeValue name) = { st with fn := name } := by
  rw [show js "FN:" = js "FN" ++ js ":" by decide,readLine_bare casing st (by decide),applyProperty_fn,
    unescapeValue_escapeValue]

/-- What the reader would fall back to without FN. -/
private def writtenFallback (name : JsString) : JsString :=
  displayName ((splitUnescaped (escapeValue name ++ js ";;;;") (unit ';')).map unescapeValue)

private theorem read_n (st : CardState) (name : JsString) :
    readLine casing st (js "N:" ++ escapeValue name ++ js ";;;;") =
      { st with nFallback := writtenFallback name } := by
  rw [show js "N:" = js "N" ++ js ":" by decide,List.append_assoc,readLine_bare casing st (by decide),
    applyProperty_n]
  rfl

/-- The state after the property lines of a contact, before any folding. -/
theorem read_cardLines (uid : JsString) (c : ContactRequest) (hes : ∀ e ∈ c.emails, IsEmail e.address)
    (hps : ∀ p ∈ c.phones, trim p.number ≠ []) :
    ∃ nFallback, (cardLines (toVCard uid c)).foldl (readLine casing) .initial =
      { emails := c.emails.map fun e => ⟨e.address,readLabel casing e.label⟩
        phones := c.phones.map fun p => ⟨trim p.number,readLabel casing p.label⟩
        uid := stripUrn uid
        fn := c.fullName
        nFallback
        organization := c.organization.bind fun o => orNull (trim o)
        note := c.note.bind orNull
        inCard := false } := by
  refine ⟨writtenFallback c.fullName,?_⟩
  simp only [cardLines,toVCard,List.foldl_append,List.foldl_cons,List.foldl_nil,read_begin,read_version,
    read_prodid,read_uid,read_fn,read_n,read_end]
  rw [read_emails casing _ hes,read_phones casing _ hps,read_organization casing _ _ rfl,
    read_note casing _ _ rfl]
  simp only [CardState.initial,List.nil_append]

end Groups

section Statement
variable (casing : CaseMapping) {uid name v : JsString}

/-- Line breaks count as LF and empty optional text as null. -/
def canonicalText (s : JsString) : JsString := normalizeBreaks CR LF s

def canonicalOption (s : Option JsString) : Option JsString := s.bind fun t => orNull (canonicalText t)

def canonical (card : VCard) : VCard :=
  { uid := card.uid
    fullName := canonicalText card.fullName
    emails := card.emails.map fun e => ⟨canonicalText e.address,canonicalOption e.label⟩
    phones := card.phones.map fun p => ⟨canonicalText p.number,canonicalOption p.label⟩
    organization := canonicalOption card.organization
    note := canonicalOption card.note }

/-- The contact a reader should see: numbers and organization trimmed, labels
stripped by `escapeParam` and lower-cased. -/
def intended (uid : JsString) (c : ContactRequest) : VCard :=
  { uid
    fullName := c.fullName
    emails := c.emails.map fun e => ⟨e.address,e.label.map fun l => casing.toLowerCase (escapeParam l)⟩
    phones := c.phones.map fun p => ⟨trim p.number,p.label.map fun l => casing.toLowerCase (escapeParam l)⟩
    organization := c.organization.map trim
    note := c.note }

/-- Writing and reading a contact keeps what a reader should see. -/
def RoundTrips (uid : JsString) (c : ContactRequest) : Prop :=
  ∃ card, parseVCard casing (serializeVCard (toVCard uid c)) = some card ∧
    canonical card = canonical (intended casing uid c)

/-- No raw line break reaches a property line, and no phone number is blank. -/
structure ContactRequest.Clean (c : ContactRequest) : Prop where
  name : CR ∉ c.fullName
  emailLabel : ∀ e ∈ c.emails, ∀ l ∈ e.label, CR ∉ escapeParam l ∧ LF ∉ escapeParam l
  phone : ∀ p ∈ c.phones, trim p.number ≠ [] ∧ CR ∉ p.number
  phoneLabel : ∀ p ∈ c.phones, ∀ l ∈ p.label, CR ∉ escapeParam l ∧ LF ∉ escapeParam l
  organization : ∀ o ∈ c.organization, CR ∉ o
  note : ∀ n ∈ c.note, CR ∉ n

private theorem uuid_unit (h : isUuid uid = true) {c : CodeUnit} (hc : c ∈ uid) :
    isHexUnit c = true ∨ c = unit '-' := by
  obtain ⟨i,hi,rfl⟩ := List.getElem_of_mem hc
  simp only [isUuid,Bool.and_eq_true,beq_iff_eq,List.all_eq_true,List.mem_range] at h
  have := h.2 i (h.1 ▸ hi)
  rw [List.getElem?_eq_getElem hi] at this
  split at this
  · exact Or.inr (by simpa using this)
  · exact Or.inl (by simpa using this)

private theorem hexUnit_range {c : CodeUnit} (h : isHexUnit c = true ∨ c = unit '-') :
    c ≠ CR ∧ c ≠ LF ∧ asciiLower c ≠ unit 'u' := by
  simp only [isHexUnit,unit,asciiLower,CR,LF] at h ⊢
  grind

private theorem stripUrn_uuid (h : isUuid uid = true) : stripUrn uid = uid ∧ uid ≠ [] := by
  cases uid with
  | nil => exact absurd h (by decide)
  | cons c s =>
    refine ⟨if_neg ?_,by simp⟩
    intro he
    have hh := congrArg List.head? he
    rw [show (js "urn:uuid:").head? = some (unit 'u') by decide] at hh
    exact (hexUnit_range (uuid_unit h (List.mem_cons_self))).2.2 (by simpa using hh)

private theorem escapeValue_unbroken (hv : CR ∉ v) : Unbroken (escapeValue v) := by
  rw [escapeValue_eq]
  exact unbroken_escape hv

private theorem sound_property (h : IsName name) {label : Option JsString}
    (hl : ∀ l ∈ label, Unbroken (escapeParam l)) (hv : CR ∉ v) :
    Sound (name ++ typeParam label ++ js ":" ++ escapeValue v) := by
  have hempty : Unbroken [] := ⟨List.not_mem_nil,List.not_mem_nil⟩
  have ht : Unbroken (typeParam label) := by
    cases label with
    | none => exact hempty
    | some l =>
      by_cases he : l = []
      · rw [typeParam,if_pos he]
        exact hempty
      · rw [typeParam,if_neg he]
        exact .append (by decide) (hl l rfl)
  rw [List.append_assoc name]
  exact sound_line name h (ht.append (by decide)) (escapeValue_unbroken hv)

private theorem sound_value (h : IsName name) (hv : CR ∉ v) :
    Sound (name ++ js ":" ++ escapeValue v) := by
  have hs : Sound (name ++ typeParam none ++ js ":" ++ escapeValue v) := sound_property h (by simp) hv
  simpa only [typeParam,List.append_nil] using hs

private theorem sound_optional (h : IsName name) {v : Option JsString} (hv : ∀ x ∈ v, CR ∉ x) :
    ∀ line ∈ optionalLine name v, Sound line := by
  intro line hm
  cases v with
  | none => simp [optionalLine] at hm
  | some x =>
    by_cases hx : x = []
    · simp [optionalLine,hx] at hm
    · rw [optionalLine,if_neg hx,List.mem_singleton] at hm
      exact hm ▸ sound_value h (hv x rfl)

/-- Every property line of a clean contact is free of raw breaks. -/
theorem cardLines_sound (hu : isUuid uid = true) {c : ContactRequest} (hv : c.Valid)
    (hc : c.Clean) : ∀ line ∈ cardLines (toVCard uid c), Sound line := by
  have huid : CR ∉ uid := fun hm => (hexUnit_range (uuid_unit hu hm)).1 rfl
  have haddr : ∀ e ∈ c.emails, CR ∉ e.address := by
    intro e he hm
    obtain ⟨hlo,_⟩ := emailUnit_graphic ((hv.email e he).1.2.2 CR hm)
    exact absurd hlo (by decide)
  intro line hm
  simp only [cardLines,toVCard,List.mem_append,List.mem_cons,List.not_mem_nil,or_false,List.mem_map] at hm
  rcases hm with ((((((rfl | rfl | rfl | rfl | rfl | rfl) | ⟨e,he,rfl⟩) | ⟨p,hp,rfl⟩) | hm) | hm) | rfl)
  · decide
  · decide
  · decide
  · exact sound_value (by decide : IsName (js "UID")) huid
  · exact sound_value (by decide : IsName (js "FN")) hc.name
  · rw [show js "N:" = js "N" ++ js ":" by decide,List.append_assoc,List.append_assoc]
    apply IsName.sound (by decide)
    exact .append (by decide) (.append (escapeValue_unbroken hc.name) (by decide))
  · exact sound_property (by decide) (hc.emailLabel e he) (haddr e he)
  · exact sound_property (by decide) (hc.phoneLabel p hp) (hc.phone p hp).2
  · exact sound_optional (by decide) hc.organization line hm
  · exact sound_optional (by decide) hc.note line hm
  · decide

@[simp] theorem canonicalOption_orNull (s : JsString) :
    canonicalOption (orNull s) = orNull (canonicalText s) := by
  by_cases h : s = []
  · subst h; rfl
  · simp [canonicalOption,orNull,h]

private theorem canonical_readLabel (label : Option JsString) :
    canonicalOption (readLabel casing label) =
      canonicalOption (label.map fun l => casing.toLowerCase (escapeParam l)) := by
  cases label with
  | none => rfl
  | some l =>
    by_cases hl : l = []
    · subst hl
      rw [readLabel,if_pos rfl,Option.map_some,casing.lower_ascii (escapeParam []) (by decide)]
      rfl
    · rw [readLabel,if_neg hl,Option.map_some]

def storedCard (uid : JsString) (c : ContactRequest) : VCard :=
  { uid
    fullName := c.fullName
    emails := c.emails.map fun e => ⟨e.address,readLabel casing e.label⟩
    phones := c.phones.map fun p => ⟨trim p.number,readLabel casing p.label⟩
    organization := c.organization.bind fun o => orNull (trim o)
    note := c.note.bind orNull }

theorem parseVCard_serializeVCard (hu : isUuid uid = true) {c : ContactRequest} (hv : c.Valid)
    (hc : c.Clean) : parseVCard casing (serializeVCard (toVCard uid c)) = some (storedCard casing uid c) := by
  obtain ⟨nFallback,hread⟩ := read_cardLines casing uid c (fun e he => (hv.email e he).1)
    (fun p hp => (hc.phone p hp).1)
  obtain ⟨hurn,huid⟩ := stripUrn_uuid hu
  have hunfold : unfoldLines (serializeVCard (toVCard uid c)) = cardLines (toVCard uid c) ++ [[]] :=
    unfoldLines_joinFolded (by simp [cardLines]) (cardLines_sound hu hv hc)
  have hname : c.fullName ≠ [] := fun h => absurd hv.name.1 (by simp [h])
  rw [parseVCard,hunfold,List.foldl_append,hread]
  simp only [List.foldl_cons,List.foldl_nil,readLine,if_true,hurn,if_neg huid,ne_eq,hname,not_false_eq_true]
  rfl

theorem canonical_storedCard (uid : JsString) (c : ContactRequest) :
    canonical (storedCard casing uid c) = canonical (intended casing uid c) := by
  have horg : canonicalOption (c.organization.bind fun o => orNull (trim o)) =
      canonicalOption (c.organization.map trim) := by
    cases c.organization with
    | none => rfl
    | some o => exact canonicalOption_orNull (trim o)
  have hnote : canonicalOption (c.note.bind orNull) = canonicalOption c.note := by
    cases c.note with
    | none => rfl
    | some n => exact canonicalOption_orNull n
  simp only [canonical,storedCard,intended,horg,hnote,List.map_map,Function.comp_def,canonical_readLabel]

/-- A clean contact is read back as a reader should see it. -/
theorem roundTrips_of_clean {uid : JsString} (hu : isUuid uid = true) {c : ContactRequest} (hv : c.Valid)
    (hc : c.Clean) : RoundTrips casing uid c :=
  ⟨_,parseVCard_serializeVCard casing hu hv hc,canonical_storedCard casing uid c⟩

def exampleUid : JsString := js "123e4567-e89b-42d3-a456-426614174000"

/-- Text that looks like vCard syntax everywhere it may. -/
def grace : ContactRequest where
  fullName := js "Hopper; Grace, \"RADM\"\nEND:VCARD"
  emails := [⟨js "grace@navy.example",some (js "Work:\"A\"")⟩]
  phones := [⟨js " +1 555 9999 ",none⟩]
  organization := some (js " US Navy;Ships")
  note := some []

theorem grace_valid : grace.Valid where
  name := by decide
  emailCount := by decide
  email := by
    intro e he
    obtain rfl := List.mem_singleton.mp he
    exact ⟨⟨by decide,by decide,by decide⟩,fun l hl => by cases hl; decide⟩
  phoneCount := by decide
  phone := by
    intro p hp
    obtain rfl := List.mem_singleton.mp hp
    exact ⟨by decide,by decide,fun l hl => by cases hl⟩
  organization := by decide
  note := by decide

theorem grace_roundTrips : RoundTrips asciiCase exampleUid grace :=
  roundTrips_of_clean asciiCase (by decide) grace_valid
    ⟨by decide,by decide,by decide,by decide,by decide,by decide⟩

/-- A note with a carriage return: the rest of the note becomes a property line. -/
def injectedNote : ContactRequest := ⟨js "Ada",[],[],none,some (js "hi\rUID:other")⟩

theorem injectedNote_not_roundTrips :
    isUuid exampleUid = true ∧ injectedNote.Valid ∧ ¬ RoundTrips asciiCase exampleUid injectedNote := by
  refine ⟨by decide,⟨by decide,by decide,by simp [injectedNote],by decide,by simp [injectedNote],by decide,by decide⟩,?_⟩
  rintro ⟨card,hread,hsame⟩
  have hwrong : parseVCard asciiCase (serializeVCard (toVCard exampleUid injectedNote)) =
      some ⟨js "other",js "Ada",[],[],none,some (js "hi")⟩ := by decide +kernel
  obtain rfl := Option.some.inj (hwrong.symm.trans hread)
  exact absurd (congrArg VCard.uid hsame) (by decide)

end Statement

end JustMail.Contacts
