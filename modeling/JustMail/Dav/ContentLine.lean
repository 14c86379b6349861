import JustMail.Foundation.CodeUnits
import JustMail.Foundation.Escaping
import JustMail.Foundation.Folding

/-! The line layer that `contacts/vcard.ts` and `calendar/ical.ts` each carry a
copy of: unfolding, folding at 75 units and text escaping. -/
namespace JustMail.Dav.ContentLine
open Foundation

def CR : CodeUnit := 13
def LF : CodeUnit := 10
def SP : CodeUnit := 32
def TAB : CodeUnit := 9
def BACKSLASH : CodeUnit := unit '\\'
def CRLF : JsString := [CR,LF]

/-- `line.startsWith(" ") || line.startsWith("\t")`, on the first unit. -/
def isBlank (c : CodeUnit) : Bool := c == SP || c == TAB

def unfoldLines (text : JsString) : List JsString := unfoldAll isBlank (splitLines CR LF text)

/-- Physical lines of one property line: 75 units, then a space and 74 units each. -/
def physicalLines (line : JsString) : List JsString := foldedLines SP 75 74 line

def foldLine (line : JsString) : JsString := CRLF.intercalate (physicalLines line)

/-- `lines.map(foldLine).join("\r\n") + "\r\n"`, the end of both serializers. -/
def joinFolded (lines : List JsString) : JsString := CRLF.intercalate (lines.map foldLine) ++ CRLF

/-- What an escaped unit stands for: a line feed for `n` and `N`, itself otherwise. -/
def decodeEscape (c : CodeUnit) : CodeUnit := if c = unit 'n' ∨ c = unit 'N' then LF else c

def unescapeText (v : JsString) : JsString := unescapeWith BACKSLASH decodeEscape v

/-- The code of each unit that both serializers escape. -/
def textCode (c : CodeUnit) : Option CodeUnit :=
  if c = BACKSLASH then some BACKSLASH
  else if c = LF then some (unit 'n')
  else if c = unit ',' then some (unit ',')
  else if c = unit ';' then some (unit ';')
  else none

theorem textCode_cases {c d : CodeUnit} (h : textCode c = some d) :
    (c = BACKSLASH ∧ d = BACKSLASH) ∨ (c = LF ∧ d = unit 'n') ∨
    (c = unit ',' ∧ d = unit ',') ∨ (c = unit ';' ∧ d = unit ';') := by
  unfold textCode at h
  split_ifs at h <;> simp_all

/-- Text that is replaced unit by unit is escaped when the four units with a code are
and every other one is left alone. -/
theorem flatMap_eq_escape {replace : CodeUnit → JsString} (hbackslash : replace BACKSLASH = js "\\\\")
    (hlf : replace LF = js "\\n") (hcomma : replace (unit ',') = js "\\,") (hsemicolon : replace (unit ';') = js "\\;")
    (hother : ∀ c, c ≠ BACKSLASH → c ≠ LF → c ≠ unit ',' → c ≠ unit ';' → replace c = [c]) (v : JsString) :
    v.flatMap replace = escapeWith BACKSLASH textCode v := by
  unfold escapeWith
  congr 1
  funext c
  cases hcode : textCode c with
  | some d =>
    rcases textCode_cases hcode with ⟨rfl,rfl⟩ | ⟨rfl,rfl⟩ | ⟨rfl,rfl⟩ | ⟨rfl,rfl⟩
    · exact hbackslash
    · exact hlf
    · exact hcomma
    · exact hsemicolon
  | none =>
    unfold textCode at hcode
    split_ifs at hcode with h1 h2 h3 h4
    exact hother c h1 h2 h3 h4

theorem textCode_spec : EscapeCode BACKSLASH textCode decodeEscape where
  inverse h := by
    rcases textCode_cases h with ⟨rfl,rfl⟩ | ⟨rfl,rfl⟩ | ⟨rfl,rfl⟩ | ⟨rfl,rfl⟩ <;> decide
  escaped := by decide

/-- Escaped text never holds a line feed, and holds a carriage return only if the text does. -/
theorem lf_notMem_escape (v : JsString) : LF ∉ escapeWith BACKSLASH textCode v := by
  apply notMem_escapeWith v (by decide)
  · intro c h
    rcases textCode_cases h with ⟨_,h⟩ | ⟨_,h⟩ | ⟨_,h⟩ | ⟨_,h⟩ <;> revert h <;> decide
  · exact fun _ => by decide

theorem cr_notMem_escape {v : JsString} (hv : CR ∉ v) : CR ∉ escapeWith BACKSLASH textCode v := by
  apply notMem_escapeWith v (by decide)
  · intro c h
    rcases textCode_cases h with ⟨_,h⟩ | ⟨_,h⟩ | ⟨_,h⟩ | ⟨_,h⟩ <;> revert h <;> decide
  · exact fun h => absurd h hv

/-- Text that breaks no line. -/
def Unbroken (s : JsString) : Prop := CR ∉ s ∧ LF ∉ s

instance (s : JsString) : Decidable (Unbroken s) := inferInstanceAs (Decidable (_ ∧ _))

theorem Unbroken.append {s t : JsString} (hs : Unbroken s) (ht : Unbroken t) : Unbroken (s ++ t) := by
  refine ⟨?_,?_⟩
  · rw [List.mem_append,not_or]
    exact ⟨hs.1,ht.1⟩
  · rw [List.mem_append,not_or]
    exact ⟨hs.2,ht.2⟩

theorem unbroken_escape {v : JsString} (hv : CR ∉ v) : Unbroken (escapeWith BACKSLASH textCode v) :=
  ⟨cr_notMem_escape hv,lf_notMem_escape v⟩

/-- A property name as the serializer writes it. -/
def IsName (name : JsString) : Prop := name ≠ [] ∧ ∀ c ∈ name, 65 ≤ c ∧ c ≤ 90

instance (name : JsString) : Decidable (IsName name) := inferInstanceAs (Decidable (_ ∧ _))

section Names
variable {name : JsString} (h : IsName name)
include h

theorem IsName.notMem {c : CodeUnit} (hc : ¬ (65 ≤ c ∧ c ≤ 90)) : c ∉ name := fun hm => hc (h.2 c hm)

theorem IsName.upper (casing : CaseMapping) : casing.toUpperCase name = name := by
  rw [casing.upper_ascii name]
  · refine (List.map_congr_left fun c hc => ?_).trans (List.map_id' name)
    have := (h.2 c hc).2
    exact if_neg fun hr => absurd (UInt16.le_trans hr.1 this) (by decide)
  · intro c hc
    exact UInt16.lt_of_le_of_lt (h.2 c hc).2 (by decide)

end Names

theorem IsName.head_not_blank {name : JsString} (h : IsName name) (s : JsString) :
    ∀ c ∈ (name ++ s).head?, isBlank c = false := by
  obtain ⟨hne,hu⟩ := h
  cases name with
  | nil => exact absurd rfl hne
  | cons d name =>
    intro c hc
    obtain rfl : d = c := by simpa using hc
    have := hu d (by simp)
    simp only [isBlank,SP,TAB]
    grind

/-- A line is acceptable when it holds no raw break and starts with a name. -/
def Sound (line : JsString) : Prop :=
  (CR ∉ line ∧ LF ∉ line) ∧ ∀ c ∈ line.head?, isBlank c = false

instance (line : JsString) : Decidable (Sound line) := inferInstanceAs (Decidable (_ ∧ _))

theorem IsName.unbroken {name : JsString} (h : IsName name) : Unbroken name :=
  ⟨h.notMem (by decide),h.notMem (by decide)⟩

theorem IsName.sound {name s : JsString} (h : IsName name) (hs : Unbroken s) : Sound (name ++ s) :=
  ⟨h.unbroken.append hs,h.head_not_blank s⟩

theorem sound_line (name : JsString) {sep value : JsString} (h : IsName name) (hsep : Unbroken sep)
    (hv : Unbroken value) : Sound (name ++ sep ++ value) := by
  rw [List.append_assoc]
  exact h.sound (hsep.append hv)

/-- Property lines free of breaks that start with no blank survive folding,
joining and unfolding; the break at the end leaves one empty line. -/
theorem unfoldLines_joinFolded {lines : List JsString} (hne : lines ≠ [])
    (h : ∀ line ∈ lines, Sound line) : unfoldLines (joinFolded lines) = lines ++ [[]] :=
  unfold_fold (by decide) (by decide) (by decide) (by decide) (by decide) (by decide) hne
    (fun l hl => (h l hl).1) (fun l hl => (h l hl).2)

end JustMail.Dav.ContentLine
