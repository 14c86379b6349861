import JustMail.Foundation.Decimal
import JustMail.Foundation.Infixes

/-! Documents of XML with namespaces, as trees that keep every choice of the writer: white space, quotes, references
and prefixes. Units of a name from 128 on are all let through, where XML has tables. -/
namespace JustMail.Foundation.XmlDocument

def TAB : CodeUnit := 9
def LF : CodeUnit := 10
def CR : CodeUnit := 13
def SP : CodeUnit := 32
def LESS : CodeUnit := unit '<'
def GREATER : CodeUnit := unit '>'
def AMPERSAND : CodeUnit := unit '&'
def SLASH : CodeUnit := unit '/'
def EQUALS : CodeUnit := unit '='
def COLON : CodeUnit := unit ':'
def SEMICOLON : CodeUnit := unit ';'

def isBlank (c : CodeUnit) : Bool := c == SP || c == TAB || c == CR || c == LF
def isNameStart (c : CodeUnit) : Bool := (65 ≤ c && c ≤ 90) || (97 ≤ c && c ≤ 122) || c == 95 || 128 ≤ c
def isNameUnit (c : CodeUnit) : Bool := isNameStart c || isDigit c || c == unit '-' || c == unit '.'
def isHex (c : CodeUnit) : Bool := isDigit c || (97 ≤ asciiLower c && asciiLower c ≤ 102)

def isName : JsString → Bool
  | [] => false
  | c :: s => isNameStart c && s.all isNameUnit

/-- Texts of a form. -/
abbrev Lexeme (p : JsString → Bool) : Type := {s : JsString // p s = true}

/-- `S?`, and `S`. -/
abbrev Blanks : Type := Lexeme fun s => s.all isBlank
abbrev Gap : Type := Lexeme fun s => s ≠ [] && s.all isBlank
abbrev Name : Type := Lexeme isName

structure QName where
  qualifier : Option Name
  localName : Name
  deriving DecidableEq

def QName.render (q : QName) : JsString :=
  match q.qualifier with
  | none => q.localName.val
  | some p => p.val ++ COLON :: q.localName.val

inductive Quote
  | single
  | double
  deriving DecidableEq

def Quote.unit : Quote → CodeUnit
  | .single => 39
  | .double => 34

/-- A literal of a declaration. -/
structure Quoted where
  quote : Quote
  text : JsString
  closed : quote.unit ∉ text

def Quoted.render (q : Quoted) : JsString := q.quote.unit :: (q.text ++ [q.quote.unit])

inductive Reference
  | decimal (digits : Lexeme fun s => s ≠ [] && s.all isDigit)
  | hexadecimal (digits : Lexeme fun s => s ≠ [] && s.all isHex)
  | entity (name : Name)

def Reference.render : Reference → JsString
  | .decimal digits => AMPERSAND :: unit '#' :: (digits.val ++ [SEMICOLON])
  | .hexadecimal digits => AMPERSAND :: unit '#' :: unit 'x' :: (digits.val ++ [SEMICOLON])
  | .entity name => AMPERSAND :: (name.val ++ [SEMICOLON])

def hexValue (s : JsString) : Nat :=
  s.foldl (fun n c => 16*n + if isDigit c then c.toNat - 48 else (asciiLower c).toNat - 87) 0

/-- What a reference stands for; `entities` has the texts of those that are not predefined. -/
def Reference.decode (entities : JsString → JsString) : Reference → JsString
  | .decimal digits => utf16 (Char.ofNat (digitsValue digits.val))
  | .hexadecimal digits => utf16 (Char.ofNat (hexValue digits.val))
  | .entity name =>
    if name.val = js "lt" then [LESS]
    else if name.val = js "gt" then [GREATER]
    else if name.val = js "amp" then [AMPERSAND]
    else if name.val = js "apos" then [Quote.single.unit]
    else if name.val = js "quot" then [Quote.double.unit]
    else entities name.val

inductive Part
  | text (s : Lexeme fun s => s.all fun c => c != LESS && c != AMPERSAND)
  | reference (r : Reference)

def Part.render : Part → JsString
  | .text s => s.val
  | .reference r => r.render

def Part.decode (entities : JsString → JsString) : Part → JsString
  | .text s => s.val
  | .reference r => r.decode entities

structure Value where
  quote : Quote
  parts : List Part
  closed : quote.unit ∉ parts.flatMap Part.render

/-- What stands between the quotes. -/
def Value.raw (v : Value) : JsString := v.parts.flatMap Part.render
def Value.render (v : Value) : JsString := v.quote.unit :: (v.raw ++ [v.quote.unit])
def Value.decode (entities : JsString → JsString) (v : Value) : JsString := v.parts.flatMap (Part.decode entities)

/-- An attribute in a tag, with the white space before it and around its sign. -/
structure Attribute where
  lead : Gap
  name : QName
  before : Blanks
  after : Blanks
  value : Value

def Attribute.render (a : Attribute) : JsString :=
  a.lead.val ++ (a.name.render ++ (a.before.val ++ EQUALS :: (a.after.val ++ a.value.render)))

structure Tag where
  name : QName
  attributes : List Attribute
  gap : Blanks

def Tag.render (t : Tag) : JsString := LESS :: (t.name.render ++ (t.attributes.flatMap Attribute.render ++ t.gap.val))

/-- Comments, processing instructions and the white space between them. -/
inductive Misc
  | blanks (s : Blanks)
  | comment (s : Lexeme fun s => ¬js "--" <:+: s ++ js "-")
  | instruction (target : Lexeme fun s => isName s && s.map asciiLower != js "xml")
    (data : Lexeme fun s => s.head?.all isBlank && ¬js "?>" <:+: s)

def Misc.render : Misc → JsString
  | .blanks s => s.val
  | .comment s => js "<!--" ++ (s.val ++ js "-->")
  | .instruction target data => js "<?" ++ (target.val ++ (data.val ++ js "?>"))

inductive Default
  | required
  | implied
  | value (fixed : Option Gap) (v : Value)

def Default.render : Default → JsString
  | .required => js "#REQUIRED"
  | .implied => js "#IMPLIED"
  | .value none v => v.render
  | .value (some gap) v => js "#FIXED" ++ (gap.val ++ v.render)

/-- An attribute of a declaration; its type is kept as it is written. -/
structure Definition where
  lead : Gap
  name : QName
  gap : Gap
  type : JsString
  tail : Gap
  default : Default

def Definition.render (a : Definition) : JsString :=
  a.lead.val ++ (a.name.render ++ (a.gap.val ++ (a.type ++ (a.tail.val ++ a.default.render))))

/-- What may stand in an internal subset; declarations of elements, entities and notations are kept as they are written. -/
inductive Declaration
  | misc (m : Misc)
  | parameter (name : Name)
  | element (s : JsString)
  | entity (s : JsString)
  | notations (s : JsString)
  | attributes (lead : Gap) (name : QName) (definitions : List Definition) (gap : Blanks)

def Declaration.render : Declaration → JsString
  | .misc m => m.render
  | .parameter name => unit '%' :: (name.val ++ [SEMICOLON])
  | .element s => js "<!ELEMENT" ++ (s ++ [GREATER])
  | .entity s => js "<!ENTITY" ++ (s ++ [GREATER])
  | .notations s => js "<!NOTATION" ++ (s ++ [GREATER])
  | .attributes lead name definitions gap =>
    js "<!ATTLIST" ++ (lead.val ++ (name.render ++ (definitions.flatMap Definition.render ++ (gap.val ++ [GREATER]))))

structure ExternalId where
  lead : Gap
  publicId : Option (Gap × Quoted)
  gap : Gap
  systemId : Quoted

def ExternalId.render (x : ExternalId) : JsString :=
  x.lead.val ++ match x.publicId with
    | none => js "SYSTEM" ++ (x.gap.val ++ x.systemId.render)
    | some (gap,publicId) => js "PUBLIC" ++ (gap.val ++ (publicId.render ++ (x.gap.val ++ x.systemId.render)))

structure Doctype where
  lead : Gap
  name : QName
  external : Option ExternalId
  gap : Blanks
  subset : Option (List Declaration × Blanks)

def subsetText : Option (List Declaration × Blanks) → JsString
  | none => []
  | some (declarations,gap) => unit '[' :: (declarations.flatMap Declaration.render ++ unit ']' :: gap.val)

def Doctype.render (t : Doctype) : JsString :=
  js "<!DOCTYPE" ++ (t.lead.val ++
    (t.name.render ++ ((t.external.elim [] ExternalId.render) ++ (t.gap.val ++ (subsetText t.subset ++ [GREATER])))))

def Doctype.declarations (t : Doctype) : List Declaration := t.subset.elim [] Prod.fst

/-- What stands between two tags: the first piece, and what follows it. -/
inductive Content
  | done
  | text (s : Lexeme fun s => (s.all fun c => c != LESS && c != AMPERSAND) && ¬js "]]>" <:+: s) (rest : Content)
  | reference (r : Reference) (rest : Content)
  | cdata (s : Lexeme fun s => ¬js "]]>" <:+: s) (rest : Content)
  | misc (m : Misc) (rest : Content)
  | empty (tag : Tag) (rest : Content)
  | element (tag : Tag) (inside : Content) (gap : Blanks) (rest : Content)

def Content.render : Content → JsString
  | .done => []
  | .text s rest => s.val ++ rest.render
  | .reference r rest => r.render ++ rest.render
  | .cdata s rest => js "<![CDATA[" ++ (s.val ++ (js "]]>" ++ rest.render))
  | .misc m rest => m.render ++ rest.render
  | .empty tag rest => tag.render ++ SLASH :: GREATER :: rest.render
  | .element tag inside gap rest =>
    tag.render ++ GREATER :: (inside.render ++ LESS :: SLASH :: (tag.name.render ++ (gap.val ++ GREATER :: rest.render)))

/-- A file: perhaps a byte order mark and a declaration, the document type, the root between comments and the like. -/
structure Document where
  mark : Bool
  declaration : Option (List Attribute × Blanks)
  before : List Misc
  doctype : Option (Doctype × List Misc)
  tag : Tag
  body : Option (Content × Blanks)
  after : List Misc

def Document.root (d : Document) : Content :=
  match d.body with
  | none => .empty d.tag .done
  | some (inside,gap) => .element d.tag inside gap .done

def declarationText : Option (List Attribute × Blanks) → JsString
  | none => []
  | some (attributes,gap) => js "<?xml" ++ (attributes.flatMap Attribute.render ++ (gap.val ++ js "?>"))

def doctypeText : Option (Doctype × List Misc) → JsString
  | none => []
  | some (t,misc) => t.render ++ misc.flatMap Misc.render

def Document.render (d : Document) : JsString :=
  (if d.mark then [0xFEFF] else []) ++ (declarationText d.declaration ++ (d.before.flatMap Misc.render ++ (doctypeText d.doctype ++
    (d.root.render ++ d.after.flatMap Misc.render))))

def Document.declarations (d : Document) : List Declaration := d.doctype.elim [] fun t => t.1.declarations

def Declaration.entityText : Declaration → Option JsString
  | .entity s => some s
  | _ => none

def Declaration.definitions : Declaration → List (QName × Definition)
  | .attributes _ name definitions _ => definitions.map (name,·)
  | _ => []

def Document.entityDeclarations (d : Document) : List JsString := d.declarations.filterMap (·.entityText)
def Document.definitions (d : Document) : List (QName × Definition) := d.declarations.flatMap (·.definitions)

/-- The prefixes that are bound, the innermost first. -/
abbrev Scope : Type := List (JsString × JsString)

/-- An element of a document with what it gets from around it. -/
structure Element where
  tag : Tag
  defaults : List (QName × Value)
  scope : Scope

/-- The first definition of an attribute counts, and only where the tag does not have it. -/
def defaultsOf : List Definition → List QName → List (QName × Value)
  | [], _ => []
  | a :: definitions, given =>
    if a.name ∈ given then defaultsOf definitions given
    else match a.default with
      | .value _ v => (a.name,v) :: defaultsOf definitions (a.name :: given)
      | _ => defaultsOf definitions (a.name :: given)

def Tag.given (t : Tag) : List (QName × Value) := t.attributes.map fun a => (a.name,a.value)

/-- `xmlns:prefix="uri"`. -/
def binding (entities : JsString → JsString) (a : QName × Value) : Option (JsString × JsString) :=
  if a.1.qualifier.map (·.val) = some (js "xmlns") then some (a.1.localName.val,a.2.decode entities) else none

def Tag.element (entities : JsString → JsString) (definitions : List (QName × Definition)) (scope : Scope) (t : Tag) : Element :=
  let defaults := defaultsOf ((definitions.filter fun p => p.1 = t.name).map Prod.snd) (t.given.map Prod.fst)
  ⟨t,defaults,(t.given ++ defaults).filterMap (binding entities) ++ scope⟩

def Element.attributes (e : Element) : List (QName × Value) := e.tag.given ++ e.defaults

def Element.namespaceOf (e : Element) (qualifier : Name) : Option JsString :=
  if qualifier.val = js "xml" then some (js "http://www.w3.org/XML/1998/namespace")
  else if qualifier.val = js "xmlns" then some (js "http://www.w3.org/2000/xmlns/")
  else e.scope.lookup qualifier.val

def Content.elements (entities : JsString → JsString) (definitions : List (QName × Definition)) : Scope → Content → List Element
  | _, .done => []
  | scope, .text _ rest => rest.elements entities definitions scope
  | scope, .reference _ rest => rest.elements entities definitions scope
  | scope, .cdata _ rest => rest.elements entities definitions scope
  | scope, .misc _ rest => rest.elements entities definitions scope
  | scope, .empty tag rest => tag.element entities definitions scope :: rest.elements entities definitions scope
  | scope, .element tag inside _ rest =>
    let e := tag.element entities definitions scope
    e :: (inside.elements entities definitions e.scope ++ rest.elements entities definitions scope)

def Document.elements (entities : JsString → JsString) (d : Document) : List Element := d.root.elements entities d.definitions []

/-- The name of an attribute, its prefix replaced by what it is bound to. -/
def Element.expanded (e : Element) (q : QName) : Option JsString × JsString := (q.qualifier.bind e.namespaceOf,q.localName.val)

/-- Every prefix is bound, and no attribute is there twice. -/
structure Document.WellNamed (entities : JsString → JsString) (d : Document) : Prop where
  bound : ∀ e ∈ d.elements entities, ∀ q ∈ e.tag.name :: e.attributes.map Prod.fst, ∀ p ∈ q.qualifier, (e.namespaceOf p).isSome = true
  unique : ∀ e ∈ d.elements entities, (e.attributes.map fun a => e.expanded a.1).Nodup

section Places
open List (infix_append_of_infix_left infix_append_of_infix_right infix_append_left infix_cons)
variable {entities : JsString → JsString} {d : Document}

theorem attribute_within {a : Attribute} {t : Tag} (h : a ∈ t.attributes) : a.render <:+: t.render :=
  infix_cons (infix_append_of_infix_right (infix_append_of_infix_left (infix_flatMap h)))

/-- The tag of every element, with the sign that follows it. -/
theorem Content.element_within {definitions : List (QName × Definition)} (c : Content) : ∀ (scope : Scope) (e : Element),
    e ∈ c.elements entities definitions scope → ∃ b ∈ [GREATER,SLASH], e.tag.render ++ [b] <:+: c.render := by
  induction c with
  | done => exact fun _ e h => absurd h List.not_mem_nil
  | text s rest ih =>
    intro scope e h
    obtain ⟨b,hb,hrest⟩ := ih scope e h
    exact ⟨b,hb,infix_append_of_infix_right hrest⟩
  | reference r rest ih =>
    intro scope e h
    obtain ⟨b,hb,hrest⟩ := ih scope e h
    exact ⟨b,hb,infix_append_of_infix_right hrest⟩
  | cdata s rest ih =>
    intro scope e h
    obtain ⟨b,hb,hrest⟩ := ih scope e h
    exact ⟨b,hb,infix_append_of_infix_right (infix_append_of_infix_right (infix_append_of_infix_right hrest))⟩
  | misc m rest ih =>
    intro scope e h
    obtain ⟨b,hb,hrest⟩ := ih scope e h
    exact ⟨b,hb,infix_append_of_infix_right hrest⟩
  | empty tag rest ih =>
    intro scope e h
    rcases List.mem_cons.mp h with rfl | hmem
    · exact ⟨SLASH,by simp,[],GREATER :: rest.render,by simp [Content.render,Tag.element]⟩
    · obtain ⟨b,hb,hrest⟩ := ih scope e hmem
      exact ⟨b,hb,infix_append_of_infix_right (infix_cons (infix_cons hrest))⟩
  | element tag inside gap rest ihinside ihrest =>
    intro scope e h
    rcases List.mem_cons.mp h with rfl | hmem
    · refine ⟨GREATER,by simp,[],inside.render ++ LESS :: SLASH :: (tag.name.render ++ (gap.val ++ GREATER :: rest.render)),?_⟩
      simp [Content.render,Tag.element]
    rcases List.mem_append.mp hmem with hwithin | hafter
    · obtain ⟨b,hb,hinside⟩ := ihinside _ e hwithin
      exact ⟨b,hb,infix_append_of_infix_right (infix_cons (infix_append_of_infix_left hinside))⟩
    · obtain ⟨b,hb,hrest⟩ := ihrest scope e hafter
      have hclose : e.tag.render ++ [b] <:+: LESS :: SLASH :: (tag.name.render ++ (gap.val ++ GREATER :: rest.render)) :=
        infix_cons (infix_cons (infix_append_of_infix_right (infix_append_of_infix_right (infix_cons hrest))))
      exact ⟨b,hb,infix_append_of_infix_right (infix_cons (infix_append_of_infix_right hclose))⟩

theorem Document.root_within (d : Document) : d.root.render <:+: d.render := by
  apply infix_append_of_infix_right
  apply infix_append_of_infix_right
  apply infix_append_of_infix_right
  apply infix_append_of_infix_right
  exact infix_append_left

theorem Document.element_within {e : Element} (h : e ∈ d.elements entities) :
    ∃ b ∈ [GREATER,SLASH], e.tag.render ++ [b] <:+: d.render := by
  obtain ⟨b,hb,hroot⟩ := d.root.element_within _ e h
  exact ⟨b,hb,hroot.trans d.root_within⟩

theorem Document.attribute_within {e : Element} {a : Attribute} (he : e ∈ d.elements entities) (ha : a ∈ e.tag.attributes) :
    a.render <:+: d.render := by
  obtain ⟨b,_,htag⟩ := Document.element_within he
  exact (XmlDocument.attribute_within ha).trans (infix_append_left.trans htag)

/-- Every declaration of the internal subset stands in the file. -/
theorem Document.declaration_within {x : Declaration} (h : x ∈ d.declarations) : x.render <:+: d.render := by
  obtain ⟨t,hdoctype,hx⟩ : ∃ t, d.doctype = some t ∧ x ∈ t.1.declarations := by
    cases hdoctype : d.doctype with
    | none => simp [Document.declarations,hdoctype] at h
    | some t => exact ⟨t,rfl,by simpa [Document.declarations,hdoctype] using h⟩
  obtain ⟨subset,hsubset,hx⟩ : ∃ subset, t.1.subset = some subset ∧ x ∈ subset.1 := by
    cases hsubset : t.1.subset with
    | none => simp [Doctype.declarations,hsubset] at hx
    | some subset => exact ⟨subset,rfl,by simpa [Doctype.declarations,hsubset] using hx⟩
  have hsubsetText : x.render <:+: subsetText t.1.subset := by
    rw [hsubset]
    exact infix_cons (infix_append_of_infix_left (infix_flatMap hx))
  have ht : x.render <:+: t.1.render := by
    apply infix_append_of_infix_right
    apply infix_append_of_infix_right
    apply infix_append_of_infix_right
    apply infix_append_of_infix_right
    apply infix_append_of_infix_right
    exact infix_append_of_infix_left hsubsetText
  have hdoctypeText : x.render <:+: doctypeText d.doctype := by
    rw [hdoctype]
    exact infix_append_of_infix_left ht
  apply infix_append_of_infix_right
  apply infix_append_of_infix_right
  apply infix_append_of_infix_right
  exact infix_append_of_infix_left hdoctypeText

/-- No file is empty. -/
theorem Document.render_ne_nil (d : Document) : d.render ≠ [] := by
  intro h
  have hroot := d.root_within
  rw [h,List.infix_nil] at hroot
  cases hbody : d.body with
  | none => simp [Document.root,hbody,Content.render,Tag.render] at hroot
  | some body => simp [Document.root,hbody,Content.render,Tag.render] at hroot

/-- What follows the name of a tag: white space, or what the tag ends with. -/
theorem Tag.render_next (t : Tag) (b : CodeUnit) : ∃ c rest, t.render ++ [b] = LESS :: (t.name.render ++ c :: rest) ∧
    (isBlank c = true ∨ c = b) := by
  have hshape : t.render ++ [b] = LESS :: (t.name.render ++ (t.attributes.flatMap Attribute.render ++ (t.gap.val ++ [b]))) :=
    by simp [Tag.render]
  rw [hshape]
  cases hattributes : t.attributes with
  | nil =>
    cases hgap : t.gap.val with
    | nil => exact ⟨b,[],rfl,.inr rfl⟩
    | cons c gap =>
      have hall := t.gap.property
      rw [hgap] at hall
      exact ⟨c,gap ++ [b],rfl,.inl (Bool.and_eq_true_iff.mp hall).1⟩
  | cons a attributes =>
    obtain ⟨hne,hall⟩ := Bool.and_eq_true_iff.mp a.lead.property
    obtain ⟨c,lead,hlead⟩ := List.exists_cons_of_ne_nil (of_decide_eq_true hne)
    rw [hlead] at hall
    exact ⟨c,_,by rw [List.flatMap_cons,Attribute.render,hlead]; rfl,.inl (Bool.and_eq_true_iff.mp hall).1⟩

/-- The white space before an attribute ends with a unit of it. -/
theorem Gap.exists_last (g : Gap) : ∃ s b, g.val = s ++ [b] ∧ isBlank b = true := by
  obtain ⟨hne,hall⟩ := Bool.and_eq_true_iff.mp g.property
  have hblank := List.all_eq_true.mp hall
  rcases List.eq_nil_or_concat g.val with hnil | ⟨s,b,hg⟩
  · exact absurd hnil (of_decide_eq_true hne)
  · rw [List.concat_eq_append] at hg
    exact ⟨s,b,hg,hblank b (by simp [hg])⟩

theorem QName.exists_render (q : QName) : ∃ s, q.render = s ++ q.localName.val := by
  unfold QName.render
  split
  · exact ⟨[],rfl⟩
  · rename_i p _
    exact ⟨p.val ++ [COLON],by simp⟩

theorem Document.mem_entityDeclarations {s : JsString} : s ∈ d.entityDeclarations ↔ .entity s ∈ d.declarations := by
  rw [Document.entityDeclarations,List.mem_filterMap]
  constructor
  · rintro ⟨x,hx,htext⟩
    cases x with
    | entity s' =>
      cases htext
      exact hx
    | _ => cases htext
  · exact fun h => ⟨.entity s,h,rfl⟩

end Places
end JustMail.Foundation.XmlDocument
