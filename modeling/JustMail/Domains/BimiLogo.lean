import JustMail.Foundation.CodeUnits
import JustMail.Foundation.Utf8Decoder
import JustMail.Foundation.XmlDocument

/-! The check of a logo before it is served (`bimi.ts`), and what a logo holds that has passed it. -/
namespace JustMail.Domains.BimiLogo
open Foundation XmlDocument

def BIMI_MAX_BYTES : Nat := 32 * 1024
def BIMI_CONTENT_TYPE : JsString := js "image/svg+xml"

structure BimiValidationError where
  reason : JsString
  deriving DecidableEq

/-- `<svg[\s>]`. -/
def rootTest (s : JsString) : Bool :=
  (afterLiteral (js "<svg") s).any fun s => s.head?.any fun c => isSpace c || c == GREATER

/-- `<script[\s/>]` and `<foreignObject[\s/>]`. -/
def tagTest (literal s : JsString) : Bool :=
  (afterLiteral literal s).any fun s => s.head?.any fun c => isSpace c || c == SLASH || c == GREATER

/-- `\son\w+\s*=`. -/
def handlerTest : JsString → Bool
  | [] => false
  | b :: s => isSpace b && (afterLiteral (js "on") s).any fun s =>
    s.takeWhile isWord ≠ [] && ((s.dropWhile isWord).dropWhile isSpace).head? == some EQUALS

def schemes : List JsString := [js "http:",js "https:",js "//",js "data:"]

/-- `\s*=\s*["'](?:https?:|\/\/|data:)`. -/
def valueTest (s : JsString) : Bool :=
  match s.dropWhile isSpace with
  | [] => false
  | e :: s => e == EQUALS && match s.dropWhile isSpace with
    | [] => false
    | q :: s => (q == Quote.double.unit || q == Quote.single.unit) && schemes.any fun scheme => (afterLiteral scheme s).isSome

/-- `(?:xlink:href|href)\s*=\s*["'](?:https?:|\/\/|data:)`. -/
def referenceTest (s : JsString) : Bool := [js "xlink:href",js "href"].any fun name => (afterLiteral name s).any valueTest

/-- `<!ENTITY`. -/
def entityTest (s : JsString) : Bool := (afterLiteral (js "<!entity") s).isSome

/-- `<!DOCTYPE[^>]+\[`. -/
def subsetTest (s : JsString) : Bool := (afterLiteral (js "<!doctype") s).any fun s => unit '[' ∈ (s.takeWhile (· ≠ GREATER)).drop 1

def validateBimiSvg (casing : CaseMapping) (body : List UInt8) (contentType : Option JsString) : Option BimiValidationError :=
  let svg := decodeLossy body
  if contentType.any fun t => t ≠ [] && !BIMI_CONTENT_TYPE.isPrefixOf (casing.toLowerCase t) then
    some ⟨js "Logo must be " ++ BIMI_CONTENT_TYPE ++ js ", got " ++ contentType.getD []⟩
  else if body.length = 0 then some ⟨js "Logo is empty"⟩
  else if BIMI_MAX_BYTES < body.length then
    some ⟨js "Logo is " ++ decimal body.length ++ js " bytes; the limit is " ++ decimal BIMI_MAX_BYTES⟩
  else if !searches rootTest svg then some ⟨js "File does not contain an <svg> root element"⟩
  else if searches (tagTest (js "<script")) svg then some ⟨js "SVG must not contain <script>"⟩
  else if searches (tagTest (js "<foreignobject")) svg then some ⟨js "SVG must not contain <foreignObject>"⟩
  else if searches handlerTest svg then some ⟨js "SVG must not contain inline event handlers (on*)"⟩
  else if searches referenceTest svg then some ⟨js "SVG must not reference external or data: URLs"⟩
  else if searches entityTest svg || searches subsetTest svg then some ⟨js "SVG must not declare entities (XXE risk)"⟩
  else none

/-- The texts that the expressions describe. -/
def IsRoot (m : JsString) : Prop := ∃ name c, AnyCase (js "<svg") name ∧ (isSpace c = true ∨ c = GREATER) ∧ m = name ++ [c]

def IsTag (literal m : JsString) : Prop :=
  ∃ name c, AnyCase literal name ∧ (isSpace c = true ∨ c = SLASH ∨ c = GREATER) ∧ m = name ++ [c]

def IsHandler (m : JsString) : Prop :=
  ∃ b on word gap, isSpace b = true ∧ AnyCase (js "on") on ∧ (word ≠ [] ∧ ∀ c ∈ word, isWord c = true) ∧ (∀ c ∈ gap, isSpace c = true) ∧
    m = b :: (on ++ (word ++ (gap ++ [EQUALS])))

/-- A scheme in any case at the start of a value. -/
def LeadsOut (s : JsString) : Prop := ∃ scheme ∈ schemes, ∃ start rest, AnyCase scheme start ∧ s = start ++ rest

def IsValue (m : JsString) : Prop :=
  ∃ before after quote value, (∀ c ∈ before, isSpace c = true) ∧ (∀ c ∈ after, isSpace c = true) ∧
    (quote = Quote.double.unit ∨ quote = Quote.single.unit) ∧ LeadsOut value ∧ m = before ++ EQUALS :: (after ++ quote :: value)

def IsReference (m : JsString) : Prop :=
  ∃ name value, (AnyCase (js "xlink:href") name ∨ AnyCase (js "href") name) ∧ IsValue value ∧ m = name ++ value

def IsEntity (m : JsString) : Prop := AnyCase (js "<!entity") m

def IsSubset (m : JsString) : Prop :=
  ∃ start middle, AnyCase (js "<!doctype") start ∧ middle ≠ [] ∧ GREATER ∉ middle ∧ m = start ++ (middle ++ [unit '['])

/-- A text of a form is in a file. -/
def Has (form : JsString → Prop) (s : JsString) : Prop := ∃ m, form m ∧ m <:+: s

section Tests
variable {literal s rest : JsString}

theorem rootTest_iff : rootTest s = true ↔ ∃ m, IsRoot m ∧ m <+: s := by
  rw [rootTest,afterLiteral_any_iff]
  constructor
  · rintro ⟨name,rest,hname,rfl,hhead⟩
    obtain ⟨c,rest,hc,rfl⟩ := head_any_iff.mp hhead
    exact ⟨name ++ [c],⟨name,c,hname,by simpa using hc,rfl⟩,rest,by simp⟩
  · rintro ⟨m,⟨name,c,hname,hc,rfl⟩,rest,rfl⟩
    exact ⟨name,c :: rest,hname,by simp,by simpa using hc⟩

theorem tagTest_iff : tagTest literal s = true ↔ ∃ m, IsTag literal m ∧ m <+: s := by
  rw [tagTest,afterLiteral_any_iff]
  constructor
  · rintro ⟨name,rest,hname,rfl,hhead⟩
    obtain ⟨c,rest,hc,rfl⟩ := head_any_iff.mp hhead
    exact ⟨name ++ [c],⟨name,c,hname,by simpa [or_assoc] using hc,rfl⟩,rest,by simp⟩
  · rintro ⟨m,⟨name,c,hname,hc,rfl⟩,rest,rfl⟩
    exact ⟨name,c :: rest,hname,by simp,by simpa [or_assoc] using hc⟩

theorem equals_not_space (rest : JsString) : ∀ c ∈ (EQUALS :: rest).head?, isSpace c = false := by
  rintro c ⟨⟩
  rfl

theorem handlerTest_iff : handlerTest s = true ↔ ∃ m, IsHandler m ∧ m <+: s := by
  constructor
  · intro h
    cases s with
    | nil => exact absurd h Bool.false_ne_true
    | cons b s =>
      rw [handlerTest,Bool.and_eq_true,afterLiteral_any_iff] at h
      obtain ⟨hb,on,rest,hon,rfl,hrest⟩ := h
      rw [Bool.and_eq_true,decide_eq_true_eq,beq_iff_eq] at hrest
      obtain ⟨hword,hhead⟩ := hrest
      obtain ⟨after,hafter⟩ := List.head?_eq_some_iff.mp hhead
      refine ⟨_,⟨b,on,rest.takeWhile isWord,(rest.dropWhile isWord).takeWhile isSpace,hb,hon,⟨hword,fun c => List.mem_takeWhile_imp⟩,
        fun c => List.mem_takeWhile_imp,rfl⟩,after,?_⟩
      have hgap := List.takeWhile_append_dropWhile (p := isSpace) (l := rest.dropWhile isWord)
      have hrest := List.takeWhile_append_dropWhile (p := isWord) (l := rest)
      rw [hafter] at hgap
      rw [← hgap] at hrest
      simpa using hrest
  · rintro ⟨m,⟨b,on,word,gap,hb,hon,⟨hne,hword⟩,hgap,rfl⟩,after,rfl⟩
    rw [List.cons_append,handlerTest,hb,Bool.true_and,afterLiteral_any_iff]
    refine ⟨on,word ++ (gap ++ EQUALS :: after),hon,by simp,?_⟩
    have hend : ∀ c ∈ (gap ++ EQUALS :: after).head?, isWord c = false := by
      intro c hc
      cases gap with
      | nil =>
        cases hc
        rfl
      | cons d gap =>
        cases hc
        exact isSpace_not_isWord (hgap c List.mem_cons_self)
    obtain ⟨htake,hdrop⟩ := span_run hword hend
    obtain ⟨_,hspaces⟩ := span_run hgap (equals_not_space after)
    rw [htake,hdrop,hspaces]
    simp [hne]

/-- A value that leads out, and a test of it. -/
theorem schemes_any_iff : (schemes.any fun scheme => (afterLiteral scheme s).isSome) = true ↔ LeadsOut s := by
  rw [List.any_eq_true]
  constructor
  · rintro ⟨scheme,hscheme,hsome⟩
    obtain ⟨rest,hrest⟩ := Option.isSome_iff_exists.mp hsome
    obtain ⟨start,hstart,hs⟩ := afterLiteral_iff.mp hrest
    exact ⟨scheme,hscheme,start,rest,hstart,hs⟩
  · rintro ⟨scheme,hscheme,start,rest,hstart,hs⟩
    exact ⟨scheme,hscheme,Option.isSome_iff_exists.mpr ⟨rest,afterLiteral_iff.mpr ⟨start,hstart,hs⟩⟩⟩

theorem LeadsOut.append (h : LeadsOut s) (t : JsString) : LeadsOut (s ++ t) := by
  obtain ⟨scheme,hscheme,start,rest,hstart,rfl⟩ := h
  exact ⟨scheme,hscheme,start,rest ++ t,hstart,List.append_assoc start rest t⟩

theorem valueTest_iff : valueTest s = true ↔ ∃ m, IsValue m ∧ m <+: s := by
  constructor
  · intro h
    unfold valueTest at h
    have hbefore := List.takeWhile_append_dropWhile (p := isSpace) (l := s)
    split at h
    · exact absurd h Bool.false_ne_true
    rename_i e s' hs'
    rw [Bool.and_eq_true,beq_iff_eq] at h
    obtain ⟨rfl,h⟩ := h
    have hafter := List.takeWhile_append_dropWhile (p := isSpace) (l := s')
    split at h
    · exact absurd h Bool.false_ne_true
    rename_i q value hvalue
    rw [Bool.and_eq_true,schemes_any_iff] at h
    obtain ⟨hquote,hleads⟩ := h
    refine ⟨s,⟨s.takeWhile isSpace,s'.takeWhile isSpace,q,value,fun c => List.mem_takeWhile_imp,fun c => List.mem_takeWhile_imp,
      by simpa using hquote,hleads,?_⟩,List.prefix_rfl⟩
    rw [← hvalue,hafter,← hs',hbefore]
  · rintro ⟨m,⟨before,after,q,value,hbefore,hafter,hquote,hleads,rfl⟩,rest,rfl⟩
    have hfirst := (span_run hbefore (equals_not_space (after ++ q :: (value ++ rest)))).2
    have hnext : (after ++ q :: (value ++ rest)).dropWhile isSpace = q :: (value ++ rest) := by
      refine (span_run hafter fun c hc => ?_).2
      cases hc
      rcases hquote with rfl | rfl
      · rfl
      · rfl
    have hshape : before ++ EQUALS :: (after ++ q :: value) ++ rest = before ++ EQUALS :: (after ++ q :: (value ++ rest)) := by simp
    rw [hshape,valueTest,hfirst]
    dsimp only
    rw [hnext]
    simp only [Bool.and_eq_true,beq_self_eq_true,true_and,schemes_any_iff]
    exact ⟨by simpa using hquote,hleads.append rest⟩

theorem referenceTest_iff : referenceTest s = true ↔ ∃ m, IsReference m ∧ m <+: s := by
  rw [referenceTest,List.any_eq_true]
  constructor
  · rintro ⟨literal,hliteral,h⟩
    obtain ⟨name,rest,hname,rfl,hrest⟩ := afterLiteral_any_iff.mp h
    obtain ⟨m,hm,hstarts⟩ := valueTest_iff.mp hrest
    refine ⟨name ++ m,⟨name,m,?_,hm,rfl⟩,(List.prefix_append_right_inj name).mpr hstarts⟩
    simp only [List.mem_cons,List.not_mem_nil,or_false] at hliteral
    rcases hliteral with rfl | rfl
    · exact .inl hname
    · exact .inr hname
  · rintro ⟨m,⟨name,value,hname,hvalue,rfl⟩,rest,rfl⟩
    have htest : valueTest (value ++ rest) = true := valueTest_iff.mpr ⟨value,hvalue,List.prefix_append value rest⟩
    rcases hname with hname | hname
    · exact ⟨js "xlink:href",by simp,afterLiteral_any_iff.mpr ⟨name,value ++ rest,hname,List.append_assoc name value rest,htest⟩⟩
    · exact ⟨js "href",by simp,afterLiteral_any_iff.mpr ⟨name,value ++ rest,hname,List.append_assoc name value rest,htest⟩⟩

theorem entityTest_iff : entityTest s = true ↔ ∃ m, IsEntity m ∧ m <+: s := by
  rw [entityTest,Option.isSome_iff_exists]
  constructor
  · rintro ⟨rest,hrest⟩
    obtain ⟨start,hstart,rfl⟩ := afterLiteral_iff.mp hrest
    exact ⟨start,hstart,List.prefix_append start rest⟩
  · rintro ⟨m,hm,rest,rfl⟩
    exact ⟨rest,afterLiteral_iff.mpr ⟨m,hm,rfl⟩⟩

theorem subsetTest_iff : subsetTest s = true ↔ ∃ m, IsSubset m ∧ m <+: s := by
  rw [subsetTest,afterLiteral_any_iff]
  constructor
  · rintro ⟨start,rest,hstart,rfl,hbracket⟩
    rw [decide_eq_true_eq] at hbracket
    have hrest := List.takeWhile_append_dropWhile (p := fun c => decide (c ≠ GREATER)) (l := rest)
    have hrun : ∀ c ∈ rest.takeWhile (fun c => decide (c ≠ GREATER)), c ≠ GREATER := fun c hc =>
      of_decide_eq_true (List.mem_takeWhile_imp (p := fun c => decide (c ≠ GREATER)) hc)
    cases hhead : rest.takeWhile (fun c => decide (c ≠ GREATER)) with
    | nil =>
      rw [hhead] at hbracket
      exact absurd hbracket List.not_mem_nil
    | cons c run =>
      rw [hhead,List.drop_succ_cons,List.drop_zero] at hbracket
      obtain ⟨x,y,hrun'⟩ := List.append_of_mem hbracket
      rw [hhead,hrun'] at hrun hrest
      refine ⟨start ++ (c :: x ++ [unit '[']),⟨start,c :: x,hstart,List.cons_ne_nil c x,?_,rfl⟩,
        y ++ rest.dropWhile (fun c => decide (c ≠ GREATER)),?_⟩
      · exact fun hmem => hrun GREATER (by simpa using List.mem_append_left (unit '[' :: y) hmem) rfl
      · rw [List.append_assoc,List.append_right_inj,← List.append_assoc,List.append_assoc (c :: x)]
        exact hrest
  · rintro ⟨m,⟨start,middle,hstart,hne,hmiddle,rfl⟩,rest,rfl⟩
    refine ⟨start,middle ++ unit '[' :: rest,hstart,by simp,?_⟩
    have hrun : ∀ c ∈ middle, decide (c ≠ GREATER) = true := fun c hc => decide_eq_true fun hgreater => hmiddle (hgreater ▸ hc)
    obtain ⟨c,middle,rfl⟩ := List.exists_cons_of_ne_nil hne
    have hbracket : decide (unit '[' ≠ GREATER) = true := rfl
    rw [decide_eq_true_eq,List.takeWhile_append_of_pos hrun,List.takeWhile_cons_of_pos (p := fun c => decide (c ≠ GREATER)) hbracket]
    simp

end Tests
section Passivity
variable (entities : JsString → JsString)

/-- `script` and `foreignObject`, under any prefix and in any case. -/
def isActive (e : Element) : Bool := e.tag.name.localName.val.map asciiLower ∈ [js "script",js "foreignobject"]

def XLINK : JsString := js "http://www.w3.org/1999/xlink"

/-- `href` and `xlink:href`, and what another prefix of the same namespace makes of it. -/
def isReference (e : Element) (q : QName) : Bool :=
  q.localName.val = js "href" && q.qualifier.all fun p => p.val = js "xlink" || e.namespaceOf p = some XLINK

def leadsOut (value : JsString) : Bool := schemes.any (·.isPrefixOf value)

structure Passive (d : Document) : Prop where
  elements : ∀ e ∈ d.elements entities, isActive e = false
  handlers : ∀ e ∈ d.elements entities, ∀ a ∈ e.attributes, ¬js "on" <+: a.1.render
  references : ∀ e ∈ d.elements entities, ∀ a ∈ e.attributes, isReference e a.1 = true → leadsOut (trim (a.2.decode entities)) = false
  declarations : d.entityDeclarations = []

/-- Whatever is not passive is spelled as the check looks for it. -/
structure Plain (d : Document) : Prop where
  elements : ∀ e ∈ d.elements entities, isActive e = true → e.tag.name.qualifier = none
  handlers : ∀ e ∈ d.elements entities, ∀ a ∈ e.tag.attributes, js "on" <+: a.name.render →
    a.name.render.drop 2 ≠ [] ∧ ∀ c ∈ a.name.render.drop 2, isWord c = true
  references : ∀ e ∈ d.elements entities, ∀ a ∈ e.tag.attributes, isReference e a.name = true →
    leadsOut (trim (a.value.decode entities)) = true → LeadsOut a.value.raw
  defaults : ∀ e ∈ d.elements entities, ∀ a ∈ e.defaults, ¬js "on" <+: a.1.render ∧
    (isReference e a.1 = true → leadsOut (trim (a.2.decode entities)) = false)

/-- A file is refused for its type, its size, the want of a root, or a text that is in it. -/
def Refused (casing : CaseMapping) (body : List UInt8) (contentType : Option JsString) : Prop :=
  (∃ t ∈ contentType, t ≠ [] ∧ ¬BIMI_CONTENT_TYPE <+: casing.toLowerCase t) ∨ BIMI_MAX_BYTES < body.length ∨
    ¬Has IsRoot (decodeLossy body) ∨ Has (IsTag (js "<script")) (decodeLossy body) ∨ Has (IsTag (js "<foreignobject")) (decodeLossy body) ∨
    Has IsHandler (decodeLossy body) ∨ Has IsReference (decodeLossy body) ∨ Has IsEntity (decodeLossy body) ∨
      Has IsSubset (decodeLossy body)

end Passivity
section Exactness
variable {entities : JsString → JsString} {casing : CaseMapping} {body : List UInt8} {contentType : Option JsString} {d : Document}

theorem refuse_none_iff {α : Type} {p : Prop} [Decidable p] {e : α} {x : Option α} : (if p then some e else x) = none ↔ ¬p ∧ x = none := by
  split
  · rename_i h
    simp [h]
  · rename_i h
    simp [h]

theorem searches_has {p : JsString → Bool} {form : JsString → Prop} {s : JsString} (h : ∀ s, p s = true ↔ ∃ m, form m ∧ m <+: s) :
    searches p s = true ↔ Has form s := searches_iff_within h

theorem validateBimiSvg_none_iff (hbody : body ≠ []) : validateBimiSvg casing body contentType = none ↔
    ¬Refused casing body contentType := by
  have htype : (contentType.any fun t => t ≠ [] && !BIMI_CONTENT_TYPE.isPrefixOf (casing.toLowerCase t)) = true ↔
      ∃ t ∈ contentType, t ≠ [] ∧ ¬BIMI_CONTENT_TYPE <+: casing.toLowerCase t := by
    simp [Option.any_eq_true,Bool.eq_false_iff]
  have hlength : ¬body.length = 0 := fun h => hbody (List.length_eq_zero_iff.mp h)
  have hroot := searches_has (s := decodeLossy body) fun _ => rootTest_iff
  have htag (literal : JsString) : searches (tagTest literal) (decodeLossy body) = true ↔ Has (IsTag literal) (decodeLossy body) :=
    searches_has fun _ => tagTest_iff
  have hhandler := searches_has (s := decodeLossy body) fun _ => handlerTest_iff
  have hreference := searches_has (s := decodeLossy body) fun _ => referenceTest_iff
  have hentity := searches_has (s := decodeLossy body) fun _ => entityTest_iff
  have hsubset := searches_has (s := decodeLossy body) fun _ => subsetTest_iff
  simp only [validateBimiSvg,refuse_none_iff,htype,hlength,Bool.not_eq_true',← Bool.not_eq_true,
    Bool.or_eq_true,hroot,htag,hhandler,hreference,
    hentity,hsubset,Refused,not_or,not_false_iff,true_and,and_true]

theorem isSpace_of_isBlank {c : CodeUnit} (h : isBlank c = true) : isSpace c = true := by
  simp only [isBlank,Bool.or_eq_true,beq_iff_eq] at h
  rcases h with ((rfl | rfl) | rfl) | rfl
  · rfl
  · rfl
  · rfl
  · rfl

theorem isSpace_of_blanks (s : Blanks) : ∀ c ∈ s.val, isSpace c = true :=
  fun c hc => isSpace_of_isBlank (List.all_eq_true.mp s.property c hc)

theorem Has.mono {form : JsString → Prop} {s t : JsString} (h : Has form s) (hs : s <:+: t) : Has form t := by
  obtain ⟨m,hm,hwithin⟩ := h
  exact ⟨m,hm,hwithin.trans hs⟩

/-- A tag without a prefix is found, whatever follows its name. -/
theorem has_tag {e : Element} {literal : JsString} (he : e ∈ d.elements entities) (hqualifier : e.tag.name.qualifier = none)
    (hlocal : AnyCase literal e.tag.name.localName.val) : Has (IsTag (LESS :: literal)) d.render := by
  obtain ⟨b,hb,htag⟩ := Document.element_within he
  obtain ⟨c,rest,hrender,hc⟩ := e.tag.render_next b
  have hname : e.tag.name.render = e.tag.name.localName.val := by rw [QName.render,hqualifier]
  rw [hrender,hname] at htag
  refine Has.mono ⟨LESS :: e.tag.name.localName.val ++ [c],⟨LESS :: e.tag.name.localName.val,c,?_,?_,rfl⟩,[],rest,by simp⟩ htag
  · exact congrArg (LESS :: ·) hlocal
  · rcases hc with hblank | rfl
    · exact .inl (isSpace_of_isBlank hblank)
    · simp only [List.mem_cons,List.not_mem_nil,or_false] at hb
      exact .inr hb.symm

theorem has_handler {e : Element} {a : Attribute} (he : e ∈ d.elements entities) (ha : a ∈ e.tag.attributes)
    (hon : js "on" <+: a.name.render)
    (hword : a.name.render.drop 2 ≠ [] ∧ ∀ c ∈ a.name.render.drop 2, isWord c = true) : Has IsHandler d.render := by
  obtain ⟨lead,b,hlead,hb⟩ := Gap.exists_last a.lead
  obtain ⟨word,hname⟩ := hon
  rw [← hname] at hword
  refine Has.mono ⟨b :: (js "on" ++ (word ++ (a.before.val ++ [EQUALS]))),⟨b,js "on",word,a.before.val,isSpace_of_isBlank hb,rfl,hword,
    isSpace_of_blanks a.before,rfl⟩,lead,a.after.val ++ a.value.render,?_⟩ (Document.attribute_within he ha)
  simp [Attribute.render,hlead,← hname]

theorem has_reference {e : Element} {a : Attribute} (he : e ∈ d.elements entities) (ha : a ∈ e.tag.attributes)
    (hname : isReference e a.name = true)
    (hleads : LeadsOut a.value.raw) : Has IsReference d.render := by
  obtain ⟨start,hrender⟩ := a.name.exists_render
  have hlocal : a.name.localName.val = js "href" := of_decide_eq_true (Bool.and_eq_true_iff.mp hname).1
  have hquote : a.value.quote.unit = Quote.double.unit ∨ a.value.quote.unit = Quote.single.unit := by
    cases a.value.quote with
    | single => exact .inr rfl
    | double => exact .inl rfl
  refine Has.mono ⟨js "href" ++ (a.before.val ++ EQUALS :: (a.after.val ++ a.value.quote.unit :: a.value.raw)),⟨js "href",_,.inr rfl,
    ⟨a.before.val,a.after.val,a.value.quote.unit,a.value.raw,isSpace_of_blanks a.before,isSpace_of_blanks a.after,hquote,hleads,rfl⟩,rfl⟩,
    a.lead.val ++ start,[a.value.quote.unit],?_⟩ (Document.attribute_within he ha)
  simp [Attribute.render,Value.render,hrender,hlocal]

theorem has_entity (h : d.entityDeclarations ≠ []) : Has IsEntity d.render := by
  obtain ⟨s,hs⟩ := List.exists_mem_of_ne_nil _ h
  have hwithin := Document.declaration_within (Document.mem_entityDeclarations.mp hs)
  exact Has.mono ⟨js "<!ENTITY",rfl,List.infix_append_left⟩ hwithin

/-- What is not passive in a plain document has a text in it for which it is refused. -/
theorem passive_of_plain (hd : decodeLossy body = d.render) (hplain : Plain entities d) (h : ¬Refused casing body contentType) :
    Passive entities d := by
  simp only [Refused,not_or,hd] at h
  obtain ⟨_,_,_,hscript,hforeign,hhandler,hreference,hentity,_⟩ := h
  refine ⟨fun e he => ?_,fun e he a ha hon => ?_,fun e he a ha hname => ?_,?_⟩
  · rw [Bool.eq_false_iff]
    intro hactive
    have hqualifier := hplain.elements e he hactive
    simp only [isActive,List.mem_cons,List.not_mem_nil,or_false,decide_eq_true_eq] at hactive
    rcases hactive with hname | hname
    · exact hscript (has_tag he hqualifier hname)
    · exact hforeign (has_tag he hqualifier hname)
  · rcases List.mem_append.mp ha with hgiven | hdefault
    · obtain ⟨a,hmem,rfl⟩ := List.mem_map.mp hgiven
      exact hhandler (has_handler he hmem hon (hplain.handlers e he a hmem hon))
    · exact (hplain.defaults e he a hdefault).1 hon
  · rcases List.mem_append.mp ha with hgiven | hdefault
    · obtain ⟨a,hmem,rfl⟩ := List.mem_map.mp hgiven
      rw [Bool.eq_false_iff]
      intro hleads
      exact hreference (has_reference he hmem hname (hplain.references e he a hmem hname hleads))
    · exact (hplain.defaults e he a hdefault).2 hname
  · by_contra hne
    exact hentity (has_entity hne)

/-- In a passive document there is nothing to be spelled. -/
theorem plain_of_passive (h : Passive entities d) : Plain entities d := by
  refine ⟨fun e he hactive => ?_,fun e he a ha hon => ?_,fun e he a ha hname hleads => ?_,fun e he a ha => ?_⟩
  · exact absurd hactive (Bool.eq_false_iff.mp (h.elements e he))
  · exact absurd hon (h.handlers e he (a.name,a.value) (List.mem_append_left _ (List.mem_map_of_mem ha)))
  · exact absurd hleads (Bool.eq_false_iff.mp (h.references e he (a.name,a.value) (List.mem_append_left _ (List.mem_map_of_mem ha)) hname))
  · have hmem : a ∈ e.attributes := List.mem_append_right _ ha
    exact ⟨h.handlers e he a hmem,h.references e he a hmem⟩

/-- A logo that passes is passive just where it is refused for something else, or nothing in it is spelled in another way. -/
theorem accepted_passive_iff (casing : CaseMapping) (entities : JsString → JsString) (body : List UInt8)
    (contentType : Option JsString) (d : Document)
    (hd : decodeLossy body = d.render) :
    (validateBimiSvg casing body contentType = none → Passive entities d) ↔ Refused casing body contentType ∨ Plain entities d := by
  have hbody : body ≠ [] := by
    rintro rfl
    exact d.render_ne_nil hd.symm
  rw [validateBimiSvg_none_iff hbody]
  constructor
  · intro h
    by_cases hrefused : Refused casing body contentType
    · exact .inl hrefused
    · exact .inr (plain_of_passive (h hrefused))
  · rintro (hrefused | hplain) haccepted
    · exact absurd hrefused haccepted
    · exact passive_of_plain hd hplain haccepted

def noEntities : JsString → JsString := fun _ => []
def bareTag (localName : Name) : Tag := ⟨⟨none,localName⟩,[],⟨[],rfl⟩⟩

/-- `<svg><rect/></svg>`. -/
def rectLogo : Document where
  mark := false
  declaration := none
  before := []
  doctype := none
  tag := bareTag ⟨js "svg",by decide⟩
  body := some (.empty (bareTag ⟨js "rect",by decide⟩) .done,⟨[],rfl⟩)
  after := []

theorem rect_logo_passive : Passive noEntities rectLogo := by
  have helements : rectLogo.elements noEntities = [⟨bareTag ⟨js "svg",by decide⟩,[],[]⟩,⟨bareTag ⟨js "rect",by decide⟩,[],[]⟩] := rfl
  have hplain : Plain noEntities rectLogo := by
    constructor
    · simp [helements,bareTag]
    · simp [helements,bareTag]
    · simp [helements,bareTag]
    · simp [helements,bareTag]
  have htext : decodeLossy (utf8Bytes rectLogo.render) = rectLogo.render := decodeLossy_utf8Bytes_wellFormed (wellFormed_ascii (by decide))
  exact (accepted_passive_iff asciiCase noEntities (utf8Bytes rectLogo.render) none rectLogo htext).mpr (.inr hplain) (by decide +kernel)

/-- `<svg xmlns:s="http://www.w3.org/2000/svg"><s:script>alert(1)</s:script></svg>`. -/
def scriptedLogo : Document where
  mark := false
  declaration := none
  before := []
  doctype := none
  tag := ⟨⟨none,⟨js "svg",by decide⟩⟩,[⟨⟨[SP],by decide⟩,⟨some ⟨js "xmlns",by decide⟩,⟨js "s",by decide⟩⟩,⟨[],rfl⟩,⟨[],rfl⟩,
    ⟨.double,[.text ⟨js "http://www.w3.org/2000/svg",by decide⟩],by decide⟩⟩],⟨[],rfl⟩⟩
  body := some (.element ⟨⟨some ⟨js "s",by decide⟩,⟨js "script",by decide⟩⟩,[],⟨[],rfl⟩⟩ (.text ⟨js "alert(1)",by decide⟩ .done) ⟨[],
    rfl⟩ .done,⟨[],rfl⟩)
  after := []

/-- The prefix hides a script from the check. -/
theorem scripted_logo_accepted : scriptedLogo.WellNamed noEntities ∧ decodeLossy (utf8Bytes scriptedLogo.render) = scriptedLogo.render ∧
    validateBimiSvg asciiCase (utf8Bytes scriptedLogo.render) (some BIMI_CONTENT_TYPE) = none ∧
    ¬∀ casing entities body contentType (d : Document), d.WellNamed entities → decodeLossy body = d.render →
      validateBimiSvg casing body contentType = none → Passive entities d := by
  have hnamed : scriptedLogo.WellNamed noEntities := ⟨by decide +kernel,by decide +kernel⟩
  have htext : decodeLossy (utf8Bytes scriptedLogo.render) = scriptedLogo.render :=
    decodeLossy_utf8Bytes_wellFormed (wellFormed_ascii (by decide))
  have haccepted : validateBimiSvg asciiCase (utf8Bytes scriptedLogo.render) (some BIMI_CONTENT_TYPE) = none := by decide +kernel
  refine ⟨hnamed,htext,haccepted,fun h => ?_⟩
  have hpassive := h asciiCase noEntities _ _ scriptedLogo hnamed htext haccepted
  have hscript : (scriptedLogo.elements noEntities).any isActive = true := by decide +kernel
  obtain ⟨e,he,hactive⟩ := List.any_eq_true.mp hscript
  exact Bool.false_ne_true ((hpassive.elements e he).symm.trans hactive)

end Exactness
end JustMail.Domains.BimiLogo
