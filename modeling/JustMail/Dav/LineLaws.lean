import JustMail.Contacts.VCardRoundTrip
import JustMail.Calendar.ICalRoundTrip

/-! The line helpers of both files as pairs of inverse functions: what a serializer
folds and escapes, a parser unfolds, splits and unescapes. -/
namespace JustMail.Dav.LineLaws
open Foundation ContentLine

/-- The two copies of the helpers. -/
inductive LineCopy where
  | vcard
  | ical
  deriving DecidableEq

namespace LineCopy

def unfoldLines : LineCopy → JsString → List JsString
  | vcard => Contacts.unfoldLines
  | ical => Calendar.unfoldLines

def foldLine : LineCopy → JsString → JsString
  | vcard => Contacts.foldLine
  | ical => Calendar.foldLine

/-- `unescapeValue` or `unescapeText`. -/
def unescape : LineCopy → JsString → JsString
  | vcard => Contacts.unescapeValue
  | ical => Calendar.unescapeText

/-- `escapeValue` or `escapeText`. -/
def escape : LineCopy → JsString → JsString
  | vcard => Contacts.escapeValue
  | ical => Calendar.escapeText

/-- `lines.map(foldLine).join("\r\n") + "\r\n"`. -/
def serialized (copy : LineCopy) (lines : List JsString) : JsString :=
  CRLF.intercalate (lines.map copy.foldLine) ++ CRLF

theorem unfoldLines_serialized (copy : LineCopy) {lines : List JsString} (hne : lines ≠ [])
    (h : ∀ line ∈ lines, Sound line) : copy.unfoldLines (copy.serialized lines) = lines ++ [[]] := by
  cases copy with
  | vcard => exact unfoldLines_joinFolded hne h
  | ical => exact unfoldLines_joinFolded hne h

theorem unescape_escape (copy : LineCopy) (v : JsString) : copy.unescape (copy.escape v) = v := by
  cases copy with
  | vcard => exact Contacts.unescapeValue_escapeValue v
  | ical => exact Calendar.unescapeText_escapeText v

end LineCopy

/-- A semicolon of an escaped value never ends a part. -/
theorem whole_escapeValue (v : JsString) : Whole BACKSLASH (unit ';') (Contacts.escapeValue v) := by
  intro cur t
  rw [Contacts.escapeValue_eq]
  exact splitUnescapedFrom_escape textCode_spec.escaped (by decide) cur v t

theorem splitUnescaped_joined {values : List JsString} (hne : values ≠ []) :
    Contacts.splitUnescaped ([unit ';'].intercalate (values.map Contacts.escapeValue)) (unit ';') =
      values.map Contacts.escapeValue := by
  apply splitUnescapedFrom_joined (by decide) (by simpa using hne)
  intro part hpart
  obtain ⟨v,-,rfl⟩ := List.mem_map.mp hpart
  exact whole_escapeValue v

/-- With no line there is still the line end, and it is read as two empty lines. -/
theorem unfoldLines_no_lines : LineCopy.vcard.unfoldLines (LineCopy.vcard.serialized []) ≠ [] ++ [[]] := by
  decide

theorem helpers_inverse (copy : LineCopy) :
    (∀ lines, lines ≠ [] → (∀ line ∈ lines, Sound line) →
      copy.unfoldLines (copy.serialized lines) = lines ++ [[]]) ∧
    (∀ v, copy.unescape (copy.escape v) = v) ∧
    ∀ values, values ≠ [] →
      Contacts.splitUnescaped ([unit ';'].intercalate (values.map Contacts.escapeValue)) (unit ';') =
        values.map Contacts.escapeValue :=
  ⟨fun _ hne h => copy.unfoldLines_serialized hne h,copy.unescape_escape,fun _ hne => splitUnescaped_joined hne⟩

/-- A line of an escape sequence, a value of the units with a code. -/
theorem helpers_inverse_sample :
    LineCopy.vcard.unfoldLines (LineCopy.vcard.serialized [js "N:\\,"]) = [js "N:\\,",[]] ∧
    LineCopy.ical.unescape (LineCopy.ical.escape (js ";\\")) = js ";\\" ∧
    Contacts.splitUnescaped ([unit ';'].intercalate ([js ";",js "\\"].map Contacts.escapeValue)) (unit ';') =
      [js ";",js "\\"].map Contacts.escapeValue :=
  ⟨(helpers_inverse .vcard).1 _ (by simp) (by decide),(helpers_inverse .ical).2.1 _,
    (helpers_inverse .vcard).2.2 _ (by simp)⟩

end JustMail.Dav.LineLaws
