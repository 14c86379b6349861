import JustMail.Foundation.Base64
import JustMail.Foundation.HtmlTokens
import JustMail.Foundation.Infixes
import Mathlib.Data.List.Nodup
import Mathlib.Data.List.Perm.Subperm

/-! The images that a message brings along, put in the place of the references to them. -/
namespace JustMail.Webmail
open Foundation Substitution HtmlTokens

/-- An attachment as `parseMimeSafe` gives it. -/
structure ParsedAttachment where
  contentId : Option JsString
  contentType : JsString
  size : Nat
  content : List UInt8
  deriving DecidableEq

/-- `contentId.replace(/[<>]/g, "")`. -/
def stripBrackets (contentId : JsString) : JsString := removeUnits (fun c => c = unit '<' ∨ c = unit '>') contentId

def ParsedAttachment.dataUri (a : ParsedAttachment) : JsString := js "data:" ++ a.contentType ++ js ";base64," ++ base64 a.content

section Meaning
variable (decode : JsString → JsString) (maxBytes : Nat) (ts : List Token) (attachments : List ParsedAttachment)

/-- What the turn of an attachment looks for, if it is one to be inlined. -/
def needle (a : ParsedAttachment) : Option JsString :=
  match a.contentId with
  | none => none
  | some contentId => if maxBytes < a.size ∨ stripBrackets contentId = [] then none else some (js "cid:" ++ stripBrackets contentId)

/-- The value that refers to it. -/
def reference (a : ParsedAttachment) : Option JsString := (needle maxBytes a).map escapeValue

/-- What a browser is to read for the value, where `decode` is how it reads one. -/
def shown (v : JsString) : JsString :=
  match attachments.find? fun a => reference maxBytes a = some v with
  | none => decode v
  | some a => a.dataUri

/-- No type of an image that is referred to has a double quote or a character reference. -/
def Legible : Prop :=
  ∀ a ∈ attachments, ∀ v ∈ values ts, reference maxBytes a = some v → QUOTE ∉ a.contentType ∧ decode a.dataUri = a.dataUri

end Meaning

section Turns
variable {maxBytes : Nat} {ts : List Token} {attachments front : List ParsedAttachment} {a b : ParsedAttachment} {html text v : JsString}

end Turns

section Result
variable {decode : JsString → JsString} {maxBytes : Nat} {ts : List Token} {attachments : List ParsedAttachment} {html : JsString}

end Result

end JustMail.Webmail
