import JustMail.Foundation.CodeUnits
import JustMail.Foundation.Substitution

/-! The tokens of HTML in the spelling of serializers: attributes one space apart, their values in double
quotes, and a slash at the end of a void tag. Text and values are kept as they are written. -/
namespace JustMail.Foundation.HtmlTokens
open Substitution

structure Attribute where
  name : JsString
  value : Option JsString
  deriving DecidableEq

inductive Token
  | text (s : JsString)
  | tag (name : JsString) (attributes : List Attribute) (selfClosing : Bool)
  | close (name : JsString)
  deriving DecidableEq

def QUOTE : CodeUnit := unit '"'
def LESS : CodeUnit := unit '<'

def Attribute.render (a : Attribute) : JsString :=
  unit ' ' :: a.name ++ match a.value with
    | none => []
    | some v => unit '=' :: QUOTE :: v ++ [QUOTE]

def Token.render : Token → JsString
  | .text s => s
  | .tag name attributes selfClosing =>
    LESS :: name ++ attributes.flatMap (·.render) ++ if selfClosing then js " />" else js ">"
  | .close name => LESS :: unit '/' :: name ++ [unit '>']

def render (ts : List Token) : JsString := ts.flatMap (·.render)

def isNameUnit (c : CodeUnit) : Bool := (48 ≤ c && c ≤ 57) || (65 ≤ c && c ≤ 90) || (97 ≤ c && c ≤ 122) || c == 45

/-- What has been read of a token that has not come to its end. -/
inductive Mode
  | data (text : JsString)
  | tagOpen
  | tagName (name : JsString)
  | endTag (name : JsString)
  | beforeName (name : JsString) (attributes : List Attribute)
  | attributeName (name : JsString) (attributes : List Attribute) (current : JsString)
  | beforeValue (name : JsString) (attributes : List Attribute) (current : JsString)
  | value (name : JsString) (attributes : List Attribute) (current value : JsString)
  | afterValue (name : JsString) (attributes : List Attribute)
  | slash (name : JsString) (attributes : List Attribute)

def flush (text : JsString) : List Token := if text = [] then [] else [.text text]

/-- The tokens that a unit completes. -/
def step (c : CodeUnit) : Mode → Option (List Token × Mode)
  | .data text => if c = LESS then some (flush text,.tagOpen) else some ([],.data (text ++ [c]))
  | .tagOpen =>
    if c = unit '/' then some ([],.endTag []) else if isNameUnit c then some ([],.tagName [c]) else none
  | .tagName name =>
    if c = unit ' ' then some ([],.beforeName name [])
    else if c = unit '>' then some ([.tag name [] false],.data [])
    else if isNameUnit c then some ([],.tagName (name ++ [c]))
    else none
  | .endTag name =>
    if c = unit '>' ∧ name ≠ [] then some ([.close name],.data [])
    else if isNameUnit c then some ([],.endTag (name ++ [c]))
    else none
  | .beforeName name attributes =>
    if c = unit '/' then some ([],.slash name attributes)
    else if isNameUnit c then some ([],.attributeName name attributes [c])
    else none
  | .attributeName name attributes current =>
    if c = unit '=' then some ([],.beforeValue name attributes current)
    else if c = unit ' ' then some ([],.beforeName name (attributes ++ [⟨current,none⟩]))
    else if c = unit '>' then some ([.tag name (attributes ++ [⟨current,none⟩]) false],.data [])
    else if isNameUnit c then some ([],.attributeName name attributes (current ++ [c]))
    else none
  | .beforeValue name attributes current => if c = QUOTE then some ([],.value name attributes current []) else none
  | .value name attributes current value =>
    if c = QUOTE then some ([],.afterValue name (attributes ++ [⟨current,some value⟩]))
    else some ([],.value name attributes current (value ++ [c]))
  | .afterValue name attributes =>
    if c = unit ' ' then some ([],.beforeName name attributes)
    else if c = unit '>' then some ([.tag name attributes false],.data [])
    else none
  | .slash name attributes => if c = unit '>' then some ([.tag name attributes true],.data []) else none

def run : Mode → JsString → Option (List Token)
  | .data text,[] => some (flush text)
  | _,[] => none
  | m,c :: s => (step c m).bind fun r => (run r.2 s).map (r.1 ++ ·)

def Token.isText : Token → Bool
  | .text _ => true
  | _ => false

def IsName (s : JsString) : Prop := s ≠ [] ∧ ∀ c ∈ s, isNameUnit c = true

def Attribute.Valid (a : Attribute) : Prop := IsName a.name ∧ ∀ v, a.value = some v → QUOTE ∉ v

def Token.Valid : Token → Prop
  | .text s => s ≠ [] ∧ LESS ∉ s
  | .tag name attributes _ => IsName name ∧ ∀ a ∈ attributes, a.Valid
  | .close name => IsName name

/-- Tokens that a text can consist of: two texts in a row would be one. -/
def WellFormed : List Token → Prop
  | [] => True
  | t :: ts => t.Valid ∧ (t.isText = true → ∀ t' ∈ ts.head?, t'.isText = false) ∧ WellFormed ts

/-- The values of attributes, and the same tokens with others. -/
def Token.values : Token → List JsString
  | .tag _ attributes _ => attributes.filterMap (·.value)
  | _ => []

def Token.mapValues (f : JsString → JsString) : Token → Token
  | .tag name attributes selfClosing => .tag name (attributes.map fun a => { a with value := a.value.map f }) selfClosing
  | t => t

def values (ts : List Token) : List JsString := ts.flatMap (·.values)
def mapValues (f : JsString → JsString) (ts : List Token) : List Token := ts.map (·.mapValues f)

/-- The values are what is open to substitution. -/
def Attribute.segments (a : Attribute) : List (Segment CodeUnit) :=
  match a.value with
  | none => [⟨false,unit ' ' :: a.name⟩]
  | some v => [⟨false,unit ' ' :: a.name ++ [unit '=',QUOTE]⟩,⟨true,v⟩,⟨false,[QUOTE]⟩]

def Token.segments : Token → List (Segment CodeUnit)
  | .text s => [⟨false,s⟩]
  | .tag name attributes selfClosing =>
    ⟨false,LESS :: name⟩ :: attributes.flatMap (·.segments) ++ [⟨false,if selfClosing then js " />" else js ">"⟩]
  | .close name => [⟨false,LESS :: unit '/' :: name ++ [unit '>']⟩]

def segments (ts : List Token) : List (Segment CodeUnit) := ts.flatMap (·.segments)

def escapeUnit (c : CodeUnit) : JsString :=
  if c = unit '&' then js "&amp;"
  else if c = LESS then js "&lt;"
  else if c = unit '>' then js "&gt;"
  else if c = QUOTE then js "&quot;"
  else [c]

/-- The value in which a serializer writes a text. -/
def escapeValue (s : JsString) : JsString := s.flatMap escapeUnit

section Reading
variable {m m' : Mode} {s w : JsString} {c : CodeUnit} {ts : List Token}

@[simp] theorem render_tag (name : JsString) (attributes : List Attribute) :
    (Token.tag name attributes false).render = LESS :: name ++ attributes.flatMap (·.render) ++ [unit '>'] := rfl

@[simp] theorem render_void (name : JsString) (attributes : List Attribute) :
    (Token.tag name attributes true).render = LESS :: name ++ attributes.flatMap (·.render) ++ [unit ' ',unit '/',unit '>'] := rfl

@[simp] theorem render_close (name : JsString) : (Token.close name).render = LESS :: unit '/' :: name ++ [unit '>'] := rfl

@[simp] theorem render_quoted (name v : JsString) :
    (Attribute.mk name (some v)).render = unit ' ' :: name ++ unit '=' :: QUOTE :: v ++ [QUOTE] := by simp [Attribute.render]

/-- What has been read of a token. -/
def Mode.written : Mode → JsString
  | .data text => text
  | .tagOpen => [LESS]
  | .tagName name => LESS :: name
  | .endTag name => LESS :: unit '/' :: name
  | .beforeName name attributes => LESS :: name ++ attributes.flatMap (·.render) ++ [unit ' ']
  | .attributeName name attributes current => LESS :: name ++ attributes.flatMap (·.render) ++ unit ' ' :: current
  | .beforeValue name attributes current => LESS :: name ++ attributes.flatMap (·.render) ++ unit ' ' :: current ++ [unit '=']
  | .value name attributes current v =>
    LESS :: name ++ attributes.flatMap (·.render) ++ unit ' ' :: current ++ unit '=' :: QUOTE :: v
  | .afterValue name attributes => LESS :: name ++ attributes.flatMap (·.render)
  | .slash name attributes => LESS :: name ++ attributes.flatMap (·.render) ++ [unit ' ',unit '/']

theorem run_cons (m : Mode) (c : CodeUnit) (s : JsString) : run m (c :: s) = (step c m).bind fun r => (run r.2 s).map (r.1 ++ ·) := by
  cases m <;> rfl

def Mode.Valid : Mode → Prop
  | .data text => LESS ∉ text
  | .tagOpen => True
  | .tagName name => IsName name
  | .endTag name => ∀ c ∈ name, isNameUnit c = true
  | .beforeName name attributes => IsName name ∧ ∀ a ∈ attributes, a.Valid
  | .attributeName name attributes current => IsName name ∧ (∀ a ∈ attributes, a.Valid) ∧ IsName current
  | .beforeValue name attributes current => IsName name ∧ (∀ a ∈ attributes, a.Valid) ∧ IsName current
  | .value name attributes current v => IsName name ∧ (∀ a ∈ attributes, a.Valid) ∧ IsName current ∧ QUOTE ∉ v
  | .afterValue name attributes => IsName name ∧ ∀ a ∈ attributes, a.Valid
  | .slash name attributes => IsName name ∧ ∀ a ∈ attributes, a.Valid

end Reading

section Writing
variable {m : Mode} {name current v s w : JsString} {attributes : List Attribute} {a : Attribute} {ts : List Token} {t : Token}

private theorem run_more {c : CodeUnit} {m' : Mode} (h : step c m = some ([],m')) (s : JsString) : run m (c :: s) = run m' s := by
  rw [run_cons,h]
  simp

/-- Units that a mode takes up one by one. -/
private theorem run_word {f : JsString → Mode} (h : ∀ c ∈ w, ∀ v, step c (f v) = some ([],f (v ++ [c]))) (v s : JsString) :
    run (f v) (w ++ s) = run (f (v ++ w)) s := by
  induction w generalizing v with
  | nil => rw [List.nil_append,List.append_nil]
  | cons c w ih =>
    rw [List.cons_append,run_more (h c List.mem_cons_self v),ih fun d hd => h d (List.mem_cons_of_mem c hd),List.append_assoc]
    rfl

end Writing

section Values
variable {f g : JsString → JsString} {ts : List Token} {v : JsString}

theorem WellFormed.valid (h : WellFormed ts) : ∀ t ∈ ts, t.Valid := by
  induction ts with
  | nil => exact fun t ht => absurd ht List.not_mem_nil
  | cons t ts ih => exact List.forall_mem_cons.mpr ⟨h.1,ih h.2.2⟩

theorem WellFormed.quote_notMem (h : WellFormed ts) : ∀ v ∈ values ts, QUOTE ∉ v := by
  intro v hv
  obtain ⟨t,ht,hv⟩ := List.mem_flatMap.mp hv
  have hvalid := h.valid t ht
  cases t with
  | text s => cases hv
  | close name => cases hv
  | tag name attributes selfClosing =>
    obtain ⟨a,ha,hav⟩ := List.mem_filterMap.mp hv
    exact (hvalid.2 a ha).2 v hav

/-- The tokens stay such as a text can consist of. -/
theorem WellFormed.mapValues (h : WellFormed ts) (hf : ∀ v ∈ values ts, QUOTE ∉ f v) : WellFormed (mapValues f ts) := by
  induction ts with
  | nil => trivial
  | cons t ts ih =>
    obtain ⟨ht,hnext,hrest⟩ := h
    have hisText : ∀ t : Token, (t.mapValues f).isText = t.isText := fun t => by cases t <;> rfl
    refine ⟨?_,fun htext t' ht' => ?_,ih hrest fun v hv => hf v (List.mem_flatMap.mpr ?_)⟩
    · cases t with
      | text s => exact ht
      | close name => exact ht
      | tag name attributes selfClosing =>
        refine ⟨ht.1,fun b hb => ?_⟩
        obtain ⟨a,ha,rfl⟩ := List.mem_map.mp hb
        refine ⟨(ht.2 a ha).1,fun v hv => ?_⟩
        obtain ⟨u,hu,rfl⟩ := Option.map_eq_some_iff.mp hv
        exact hf u (List.mem_flatMap.mpr ⟨_,List.mem_cons_self,List.mem_filterMap.mpr ⟨a,ha,hu⟩⟩)
    · rw [hisText] at htext
      rw [List.head?_map] at ht'
      obtain ⟨u,hu,rfl⟩ := Option.map_eq_some_iff.mp ht'
      rw [hisText]
      exact hnext htext u hu
    · obtain ⟨u,hu,hv⟩ := List.mem_flatMap.mp hv
      exact ⟨u,List.mem_cons_of_mem t hu,hv⟩

end Values

end JustMail.Foundation.HtmlTokens
