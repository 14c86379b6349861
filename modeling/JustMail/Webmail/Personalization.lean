import JustMail.Foundation.CodeUnits
import JustMail.Foundation.Decimal
import Mathlib.Logic.Function.Basic

/-! `PersonalizationService` and the profile picture of `AvatarService`, past the check of
access: signatures, templates and the picture of one mailbox. -/
namespace JustMail.Webmail
open Foundation

structure Signature where
  id : Nat
  name : JsString
  html : JsString
  text : JsString
  isDefault : Bool
  deriving DecidableEq

structure Template where
  id : Nat
  name : JsString
  subject : JsString
  html : JsString
  text : JsString
  deriving DecidableEq

structure SignatureRequest where
  name : JsString
  html : JsString
  text : JsString
  isDefault : Bool

structure TemplateRequest where
  name : JsString
  subject : JsString
  html : JsString
  text : JsString

/-- What is kept for one mailbox. Statements reach the rows by `mailbox_id`, and pictures are
stored under a path with the id; `rest` is its folders, filters and outgoing mail. -/
structure MailboxData (δ : Type) where
  signatures : List Signature
  templates : List Template
  avatarPath : Option JsString
  pictures : JsString → Option (List Nat)
  rest : δ

inductive MailFailure where
  | notAccessible
  | orgNotFound
  | insufficientRole
  | mailboxNotFound
  | mailboxLocked
  | wrongPassword
  | invalidFolderName
  | systemFolder
  | signatureNotFound
  | templateNotFound
  | unsupportedImage
  | imageTooLarge
  | other (title : JsString)
  deriving DecidableEq

/-- What the services answer; `mail` is what comes from the folders, filters and outgoing mail. -/
inductive Reply (ρ : Type) where
  | done
  | mail (out : ρ)
  | signatures (rows : List Signature)
  | signature (row : Signature)
  | templates (rows : List Template)
  | template (row : Template)

/-- What the services use from outside: case mapping, the sanitiser of HTML, the collation of
the database and the configured size of pictures. -/
structure Personalizer where
  cm : CaseMapping
  sanitizeMailHtml : JsString → JsString
  nameLe : JsString → JsString → Bool
  PROFILE_AVATAR_MAX_BYTES : Nat

section Rows
variable {δ ρ : Type} (env : Personalizer) (d : MailboxData δ)

/-- `ORDER BY is_default DESC, name ASC`. -/
def listSignatures : Except MailFailure (Reply ρ × MailboxData δ) :=
  .ok (.signatures (d.signatures.mergeSort fun a b => if a.isDefault = b.isDefault then env.nameLe a.name b.name else a.isDefault),d)

/-- `UPDATE signatures SET is_default = false`, for all rows but that of `keep`. -/
def demote (keep : Option Nat) (rows : List Signature) : List Signature :=
  rows.map fun r => if keep = some r.id then r else { r with isDefault := false }

def createSignature (input : SignatureRequest) (newId : Nat) : Except MailFailure (Reply ρ × MailboxData δ) :=
  let row := ⟨newId,input.name,env.sanitizeMailHtml input.html,input.text,input.isDefault⟩
  let rows := if input.isDefault then demote none d.signatures else d.signatures
  .ok (.signature row,{ d with signatures := rows ++ [row] })

def updateSignature (id : Nat) (input : SignatureRequest) : Except MailFailure (Reply ρ × MailboxData δ) :=
  let row := ⟨id,input.name,env.sanitizeMailHtml input.html,input.text,input.isDefault⟩
  let rows := if input.isDefault then demote (some id) d.signatures else d.signatures
  if rows.any (·.id == id) then .ok (.signature row,{ d with signatures := rows.map fun r => if r.id = id then row else r })
  else .error .signatureNotFound

def deleteSignature (id : Nat) : Except MailFailure (Reply ρ × MailboxData δ) :=
  if d.signatures.any (·.id == id) then .ok (.done,{ d with signatures := d.signatures.filter (·.id != id) })
  else .error .signatureNotFound

def listTemplates : Except MailFailure (Reply ρ × MailboxData δ) :=
  .ok (.templates (d.templates.mergeSort fun a b => env.nameLe a.name b.name),d)

def createTemplate (input : TemplateRequest) (newId : Nat) : Except MailFailure (Reply ρ × MailboxData δ) :=
  let row := ⟨newId,input.name,input.subject,env.sanitizeMailHtml input.html,input.text⟩
  .ok (.template row,{ d with templates := d.templates ++ [row] })

def updateTemplate (id : Nat) (input : TemplateRequest) : Except MailFailure (Reply ρ × MailboxData δ) :=
  let row := ⟨id,input.name,input.subject,env.sanitizeMailHtml input.html,input.text⟩
  if d.templates.any (·.id == id) then .ok (.template row,{ d with templates := d.templates.map fun r => if r.id = id then row else r })
  else .error .templateNotFound

def deleteTemplate (id : Nat) : Except MailFailure (Reply ρ × MailboxData δ) :=
  if d.templates.any (·.id == id) then .ok (.done,{ d with templates := d.templates.filter (·.id != id) })
  else .error .templateNotFound

inductive PersonalizationOp where
  | listSignatures
  | createSignature (input : SignatureRequest) (newId : Nat)
  | updateSignature (id : Nat) (input : SignatureRequest)
  | deleteSignature (id : Nat)
  | listTemplates
  | createTemplate (input : TemplateRequest) (newId : Nat)
  | updateTemplate (id : Nat) (input : TemplateRequest)
  | deleteTemplate (id : Nat)

def PersonalizationOp.apply : PersonalizationOp → Except MailFailure (Reply ρ × MailboxData δ)
  | .listSignatures => Webmail.listSignatures env d
  | .createSignature input newId => Webmail.createSignature env d input newId
  | .updateSignature id input => Webmail.updateSignature env d id input
  | .deleteSignature id => Webmail.deleteSignature d id
  | .listTemplates => Webmail.listTemplates env d
  | .createTemplate input newId => Webmail.createTemplate env d input newId
  | .updateTemplate id input => Webmail.updateTemplate env d id input
  | .deleteTemplate id => Webmail.deleteTemplate d id

end Rows

section Pictures
variable {δ ρ : Type} (env : Personalizer) (mailboxId : Nat) (d : MailboxData δ)

/-- `MIME_EXT`. It is a plain object, so that two more names find what all objects inherit. -/
def MIME_EXT : List (JsString × JsString) :=
  [(js "image/png",js "png"),(js "image/jpeg",js "jpg"),(js "image/webp",js "webp"),(js "image/gif",js "gif"),
    (js "constructor",js "function Object() \x7b [native code] \x7d"),(js "__proto__",js "[object Object]")]

/-- `/^data:([^;,]+);base64,(.+)$/s`. -/
def matchDataUrl (s : JsString) : Option (JsString × JsString) :=
  if (js "data:").isPrefixOf s then
    let mime := (s.drop 5).takeWhile fun c => c ≠ unit ';' ∧ c ≠ unit ','
    let rest := (s.drop 5).dropWhile fun c => c ≠ unit ';' ∧ c ≠ unit ','
    if !mime.isEmpty ∧ (js ";base64,").isPrefixOf rest ∧ !(rest.drop 8).isEmpty then some (mime,rest.drop 8) else none
  else none

def acceptedPicture (dataUrl : JsString) : Except MailFailure (JsString × List Nat) :=
  match (matchDataUrl (trim dataUrl)).bind fun m => (MIME_EXT.lookup (env.cm.toLowerCase m.1)).map (·,m.2) with
  | none => .error .unsupportedImage
  | some (ext,text) =>
    let buffer := bufferFromBase64 text
    if buffer.isEmpty ∨ env.PROFILE_AVATAR_MAX_BYTES < buffer.length then .error .imageTooLarge else .ok (ext,buffer)

def setProfileAvatar (dataUrl : JsString) : Except MailFailure (Reply ρ × MailboxData δ) :=
  match acceptedPicture env dataUrl with
  | .error e => .error e
  | .ok (ext,buffer) =>
    let path := js "avatars/mailbox/" ++ decimal mailboxId ++ js "." ++ ext
    let stored := Function.update d.pictures path (some buffer)
    let cleaned := match d.avatarPath with
      | some old => if old ≠ path then Function.update stored old none else stored
      | none => stored
    .ok (.done,{ d with avatarPath := some path, pictures := cleaned })

def removeProfileAvatar : Except MailFailure (Reply ρ × MailboxData δ) :=
  let cleaned := match d.avatarPath with
    | some path => Function.update d.pictures path none
    | none => d.pictures
  .ok (.done,{ d with avatarPath := none, pictures := cleaned })

inductive AvatarOp where
  | setProfileAvatar (dataUrl : JsString)
  | removeProfileAvatar

def AvatarOp.apply : AvatarOp → Except MailFailure (Reply ρ × MailboxData δ)
  | .setProfileAvatar dataUrl => Webmail.setProfileAvatar env mailboxId d dataUrl
  | .removeProfileAvatar => Webmail.removeProfileAvatar d

end Pictures
end JustMail.Webmail
