import JustMail.Foundation.CodeUnits
import Mathlib.Algebra.GroupWithZero.Nat

/-! Content lines of the text formats for cards and calendars: a name, with a group before it in a card, parameters
with plain and quoted values, and the value of the property. -/
namespace JustMail.Foundation

inductive ParamValue where
  | plain (text : JsString)
  | quoted (text : JsString)

structure Parameter where
  name : JsString
  values : List ParamValue

structure ContentLine where
  group : Option JsString
  name : JsString
  params : List Parameter
  value : JsString

namespace ContentLine

def QUOTE : CodeUnit := unit '"'
def COLON : CodeUnit := unit ':'
def SEMICOLON : CodeUnit := unit ';'
def COMMA : CodeUnit := unit ','
def EQUALS : CodeUnit := unit '='
def DOT : CodeUnit := unit '.'
def ESCAPE : CodeUnit := unit '\\'

/-- A letter, a digit or a hyphen. -/
def isNameUnit (c : CodeUnit) : Bool := (48 ≤ c && c ≤ 57) || (65 ≤ c && c ≤ 90) || (97 ≤ c && c ≤ 122) || c == 45

def isControl (c : CodeUnit) : Bool := (c < 32 && c != 9) || c == 127

/-- What a value outside of quotes is made of. -/
def isSafe (c : CodeUnit) : Bool :=
  !isControl c && c != QUOTE && c != SEMICOLON && c != COLON && c != COMMA && c != ESCAPE

def isQuotable (c : CodeUnit) : Bool := !isControl c && c != QUOTE

end ContentLine

open ContentLine

def ParamValue.text : ParamValue → JsString
  | .plain text | .quoted text => text

def ParamValue.render : ParamValue → JsString
  | .plain text => text
  | .quoted text => QUOTE :: (text ++ [QUOTE])

def Parameter.render (p : Parameter) : JsString := p.name ++ EQUALS :: [COMMA].intercalate (p.values.map ParamValue.render)

def ContentLine.fullName (l : ContentLine) : JsString :=
  match l.group with
  | none => l.name
  | some group => group ++ DOT :: l.name

def ContentLine.head (l : ContentLine) : JsString := l.fullName ++ l.params.flatMap fun p => SEMICOLON :: p.render

def ContentLine.render (l : ContentLine) : JsString := l.head ++ COLON :: l.value

def IsToken (s : JsString) : Prop := s ≠ [] ∧ ∀ c ∈ s, isNameUnit c = true

def ParamValue.Valid : ParamValue → Prop
  | .plain text => ∀ c ∈ text, isSafe c = true
  | .quoted text => ∀ c ∈ text, isQuotable c = true

structure Parameter.Valid (p : Parameter) : Prop where
  name : IsToken p.name
  values : p.values ≠ []
  each : ∀ v ∈ p.values, v.Valid

structure ContentLine.Valid (l : ContentLine) : Prop where
  group : ∀ g ∈ l.group, IsToken g
  name : IsToken l.name
  params : ∀ p ∈ l.params, p.Valid

section Units
variable {s : JsString} {c : CodeUnit}

theorem IsToken.notMem (h : IsToken s) (hc : isNameUnit c = false) : c ∉ s := fun hm => by simp [h.2 c hm] at hc

theorem IsToken.ascii (h : IsToken s) : ∀ c ∈ s, c < 128 := by
  intro c hc
  have hunit := h.2 c hc
  simp only [isNameUnit,Bool.or_eq_true,Bool.and_eq_true,decide_eq_true_eq,beq_iff_eq] at hunit
  rcases hunit with ((⟨-,h⟩ | ⟨-,h⟩) | ⟨-,h⟩) | rfl
  · exact UInt16.lt_of_le_of_lt h (by decide)
  · exact UInt16.lt_of_le_of_lt h (by decide)
  · exact UInt16.lt_of_le_of_lt h (by decide)
  · decide

theorem ContentLine.Valid.fullName_notMem {l : ContentLine} (h : l.Valid) (hc : isNameUnit c = false) (hdot : c ≠ DOT) :
    c ∉ l.fullName := by
  have hname : c ∉ l.name := h.name.notMem hc
  cases hgroup : l.group with
  | none =>
    rw [ContentLine.fullName,hgroup]
    exact hname
  | some g =>
    have hg : c ∉ g := (h.group g hgroup).notMem hc
    rw [ContentLine.fullName,hgroup]
    simp [hg,hname,hdot]

end Units

section Values
variable {v : ParamValue} {vs : List ParamValue} {p : Parameter} {ps : List Parameter} {d : CodeUnit}

def renderedList (vs : List ParamValue) : JsString := [COMMA].intercalate (vs.map ParamValue.render)
def rawList (vs : List ParamValue) : JsString := [COMMA].intercalate (vs.map ParamValue.text)

theorem renderedList_cons_cons (v w : ParamValue) (vs : List ParamValue) :
    renderedList (v :: w :: vs) = v.render ++ COMMA :: renderedList (w :: vs) := by
  rw [renderedList,List.map_cons,List.map_cons,List.intercalate_cons_cons,List.append_assoc]
  rfl

theorem rawList_cons_cons (v w : ParamValue) (vs : List ParamValue) : rawList (v :: w :: vs) = v.text ++ COMMA :: rawList (w :: vs) := by
  rw [rawList,List.map_cons,List.map_cons,List.intercalate_cons_cons,List.append_assoc]
  rfl

theorem ParamValue.Valid.quote_notMem (h : v.Valid) : QUOTE ∉ v.text := by
  cases v with
  | plain text => exact fun hm => absurd (h _ hm) (by decide)
  | quoted text => exact fun hm => absurd (h _ hm) (by decide)

theorem ParamValue.unquoted (h : v.Valid) : removeUnits (· == QUOTE) v.render = v.text := by
  have hplain {text : JsString} (htext : QUOTE ∉ text) : text.filter (fun c => !(c == QUOTE)) = text :=
    List.filter_eq_self.mpr fun c hc => by simpa using fun he : c = QUOTE => htext (he ▸ hc)
  have htext := hplain h.quote_notMem
  cases v with
  | plain text => exact htext
  | quoted text =>
    rw [removeUnits,ParamValue.render,List.filter_cons_of_neg (by simp),List.filter_append,List.filter_cons_of_neg (by simp)]
    exact (List.append_nil _).trans htext

/-- Taking out the quotes of a list leaves the texts. -/
theorem renderedList_unquoted (h : ∀ v ∈ vs, v.Valid) : removeUnits (· == QUOTE) (renderedList vs) = rawList vs := by
  induction vs with
  | nil => rfl
  | cons v vs ih =>
    obtain ⟨hv,hvs⟩ := List.forall_mem_cons.mp h
    cases vs with
    | nil => simpa [renderedList,rawList] using ParamValue.unquoted hv
    | cons w ws =>
      have hsplit : removeUnits (· == QUOTE) (v.render ++ COMMA :: renderedList (w :: ws)) =
          removeUnits (· == QUOTE) v.render ++ COMMA :: removeUnits (· == QUOTE) (renderedList (w :: ws)) := by
        rw [removeUnits,List.filter_append,List.filter_cons_of_pos (by decide)]
        rfl
      rw [renderedList_cons_cons,rawList_cons_cons,hsplit,ParamValue.unquoted hv,ih hvs]

def countIn (d : CodeUnit) (vs : List ParamValue) : Nat := (vs.map fun v => v.text.count d).sum

theorem count_renderedList (hquote : d ≠ QUOTE) (hcomma : d ≠ COMMA) (vs : List ParamValue) :
    (renderedList vs).count d = countIn d vs := by
  have hvalue (v : ParamValue) : v.render.count d = v.text.count d := by
    cases v with
    | plain text => rfl
    | quoted text => simp [ParamValue.render,ParamValue.text,Ne.symm hquote]
  induction vs with
  | nil => rfl
  | cons v vs ih =>
    cases vs with
    | nil => simp [renderedList,countIn,hvalue]
    | cons w ws =>
      rw [renderedList_cons_cons,List.count_append,List.count_cons_of_ne (Ne.symm hcomma),hvalue,ih]
      rfl

theorem Parameter.render_eq (p : Parameter) : p.render = p.name ++ EQUALS :: renderedList p.values := rfl

/-- The semicolons of the parameters: one before each of them, and those in quotes. -/
theorem count_params (h : ∀ p ∈ ps, p.Valid) :
    (ps.flatMap fun p => SEMICOLON :: p.render).count SEMICOLON = ps.length + (ps.map fun p => countIn SEMICOLON p.values).sum := by
  induction ps with
  | nil => rfl
  | cons p ps ih =>
    obtain ⟨hp,hps⟩ := List.forall_mem_cons.mp h
    rw [List.flatMap_cons,List.cons_append,List.count_cons_self,List.count_append,ih hps,Parameter.render_eq,List.count_append,
      List.count_eq_zero.mpr (hp.name.notMem (by decide)),List.count_cons_of_ne (by decide),count_renderedList (by decide) (by decide),
      List.length_cons,List.map_cons,List.sum_cons]
    omega

end Values
end JustMail.Foundation
