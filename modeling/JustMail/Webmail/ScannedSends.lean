import Mathlib.Algebra.GroupWithZero.Nat
import JustMail.Attachments.Uploads
import JustMail.Webmail.ScheduledSends

/-! The attachments of a message, from uploads and compose requests to the transport, and what the virus
scanner has reported of them. -/
namespace JustMail.Webmail
open Foundation Attachments

section Model

inductive VirusStatus where
  | pending | clean | infected | error
  deriving DecidableEq

structure InlineAttachment where
  filename : JsString
  mime : JsString
  contentBase64 : JsString

/-- `Buffer.from(content_base64, "base64")`. -/
def InlineAttachment.content (a : InlineAttachment) : Bytes := (bufferFromBase64 a.contentBase64).map (·.toUInt8)

/-- The attachments of a compose request. The content hash stands for the id of a stored one. -/
structure ComposePayload where
  attachmentIds : List JsString
  attachments : List InlineAttachment

/-- Times are in seconds. -/
structure SendRequest where
  orgId : Uuid
  mailboxId : Uuid
  payload : ComposePayload
  sendAt : Option Nat

structure DispatchConfig where
  sends : SendConfig
  undoSeconds : Nat
  maxDays : Nat
  clamavEnabled : Bool

/-- The state of one organisation. `clean` are the bodies that the scanner has reported clean, and `handed`
those that a transport has been handed. -/
structure OutboundState where
  uploads : UploadState
  virus : JsString → VirusStatus
  table : SendTable
  payloads : Uuid → ComposePayload
  clean : List Bytes
  handed : List Bytes

structure ClaimedSend where
  row : ScheduledSendRow
  payload : ComposePayload

/-- Who resolves stored attachments. -/
inductive Resolver where
  | send (req : SendRequest)
  | dispatch (claimed : ClaimedSend)

inductive OutboundInstr where
  | upload (instr : UploadInstr)
  | createUpload (filename mime : JsString) (sizeBytes : Nat)
  | resolve (r : Resolver) (ids : List JsString) (stored : List AttachmentRow)
  | scan (r : Resolver) (att : AttachmentRow) (ids : List JsString) (stored : List AttachmentRow)
  | markVirusStatus (r : Resolver) (att : AttachmentRow) (clean : Bool) (ids : List JsString) (stored : List AttachmentRow)
  | checkLimits (req : SendRequest) (stored : List AttachmentRow)
  | creds (req : SendRequest)
  | insertSend (req : SendRequest)
  | cancel (id orgId mailboxId : Uuid)
  | claim
  | dispatch (c : ClaimedSend)
  | openStored (c : ClaimedSend) (stored : List AttachmentRow) (bodies : List Bytes)
  | sendMail (c : ClaimedSend) (bodies : List Bytes)
  | append (c : ClaimedSend)
  | bust (c : ClaimedSend)
  | closeSent (c : ClaimedSend)
  | closeError (c : ClaimedSend) (message : JsString)

/-- What an instruction meets: an exception, the clock, an id that is drawn, the rows that a claim selects,
the verdict of the scanner, the attachment limits, and whether the caller may. -/
structure OutboundEnv where
  exception : Option JsString
  now : Nat
  drawnId : Uuid
  ids : List Uuid
  verdict : Bool
  maxCount : Nat
  maxTotalBytes : Nat
  allowed : Bool

inductive OutboundOp where
  | createUpload (filename mime : JsString) (sizeBytes : Nat)
  | appendChunk (call : AppendCall)
  | finaliseUpload (id : Nat)
  | send (req : SendRequest)
  | cancel (id orgId mailboxId : Uuid)
  | processDueSends

def OutboundOp.body : OutboundOp → List OutboundInstr
  | .createUpload filename mime sizeBytes => [.createUpload filename mime sizeBytes]
  | .appendChunk call => (appendBody call).map .upload
  | .finaliseUpload id => (finaliseBody id).map .upload
  | .send req => [.resolve (.send req) req.payload.attachmentIds []]
  | .cancel id orgId mailboxId => [.cancel id orgId mailboxId]
  | .processDueSends => [.claim]

/-- The message of an exception made from a title and a detail is the name of its class. -/
def badRequest : JsString := js "Bad Request Exception"
def notFound : JsString := js "Not Found Exception"

/-- A send is refused; a dispatch that fails is recorded. -/
def Resolver.fail (message : JsString) : Resolver → Foundation.Outcome OutboundInstr
  | .send _ => .throw
  | .dispatch c => .next [.closeError c message]

def Resolver.done (stored : List AttachmentRow) : Resolver → OutboundInstr
  | .send req => .checkLimits req stored
  | .dispatch c => .openStored c stored []

/-- `Math.ceil(a.content_base64.length * 0.75)` for each, added up. -/
def inlineBytes (attachments : List InlineAttachment) : Nat := (attachments.map fun a => (3 * a.contentBase64.length + 3) / 4).sum

def resolveSendAt (cfg : DispatchConfig) (sendAt : Option Nat) (now : Nat) : Option Nat :=
  match sendAt with
  | none => some (now + cfg.undoSeconds)
  | some requested => if now + cfg.maxDays * 86400 < requested then none else some (max requested (now + cfg.undoSeconds))

def liftUpload : Foundation.Outcome UploadInstr → Foundation.Outcome OutboundInstr
  | .next more => .next (more.map .upload)
  | .throw => .throw

namespace OutboundState
variable (s : OutboundState) (sha256 : Bytes → JsString) (cfg : DispatchConfig)

/-- Where an exception is thrown. The append to Sent never fails a dispatch. -/
def failure (message : JsString) : OutboundInstr → Foundation.Outcome OutboundInstr
  | .resolve r _ _ | .markVirusStatus r _ _ _ _ => r.fail message
  | .scan r _ _ _ => r.fail badRequest
  | .dispatch c | .openStored c _ _ | .sendMail c _ | .bust c | .closeSent c => .next [.closeError c message]
  | .append c => .next [.bust c]
  | .upload _ | .createUpload _ _ _ | .checkLimits _ _ | .creds _ | .insertSend _ | .cancel _ _ _ | .claim | .closeError _ _ => .throw

def insertSend (req : SendRequest) (id sendAt now : Nat) : Option OutboundState :=
  let row : ScheduledSendRow := ⟨id,req.orgId,req.mailboxId,sendAt,.pending,0,none,now,none⟩
  if h : s.table.lookup row.id = none then
    some { s with table := s.table.insert row h, payloads := fun id' => if id' = id then req.payload else s.payloads id' }
  else none

/-- An instruction that meets no exception from outside; nothing where a claim could not have selected
those rows. -/
def act (instr : OutboundInstr) (env : OutboundEnv) : Option (OutboundState × Foundation.Outcome OutboundInstr) :=
  match instr with
  | .upload instr => (execUpload sha256 s.uploads instr ⟨false⟩).map fun r => ({ s with uploads := r.1 },liftUpload r.2)
  | .createUpload filename mime sizeBytes =>
    if env.maxTotalBytes < sizeBytes then some (s,.throw)
    else if h : s.uploads.uploads.lookup env.drawnId = none then
      some ({ s with uploads := { s.uploads with uploads := s.uploads.uploads.insert ⟨env.drawnId,filename,mime,sizeBytes,0,0⟩ h } },
        .next [])
    else some (s,.throw)
  | .resolve r [] stored => some (s,.next [r.done stored])
  | .resolve r (id :: ids) stored =>
    some (s,match s.uploads.attachments.lookup id with
      | none => r.fail notFound
      | some att =>
        if s.virus id = .infected then r.fail badRequest
        else if cfg.clamavEnabled = true ∧ s.virus id ≠ .clean then .next [.scan r att ids stored]
        else .next [.resolve r ids (stored ++ [att])])
  | .scan r att ids stored =>
    some (match s.uploads.objects (.attachment att.contentHash) with
      | none => (s,r.fail badRequest)
      | some body => ({ s with clean := if env.verdict then body :: s.clean else s.clean },
          .next [.markVirusStatus r att env.verdict ids stored]))
  | .markVirusStatus r att clean ids stored =>
    some ({ s with virus := fun id => if id = att.contentHash then (if clean then .clean else .infected) else s.virus id },
      if clean then .next [.resolve r ids (stored ++ [att])] else r.fail badRequest)
  | .checkLimits req stored =>
    let count := req.payload.attachments.length + stored.length
    let bytes := inlineBytes req.payload.attachments + (stored.map (·.sizeBytes)).sum
    some (s,if env.maxCount < count ∨ env.maxTotalBytes < bytes then .throw else .next [.creds req])
  | .creds req => some (s,if env.allowed then .next [.insertSend req] else .throw)
  | .insertSend req =>
    some (((resolveSendAt cfg req.sendAt env.now).bind fun sendAt => s.insertSend req env.drawnId sendAt env.now).elim (s,.throw)
      fun s' => (s',.next []))
  | .cancel id orgId mailboxId =>
    some (if s.table.rows.any (cancellable id orgId mailboxId) then
      ({ s with table := s.table.updateWhere (cancellable id orgId mailboxId) (cancelRow env.now) (cancelRow_id env.now) },.next [])
    else (s,.throw))
  | .claim =>
    if Selects cfg.sends env.now s.table env.ids then
      let table := claimRows env.now s.table env.ids
      some ({ s with table := table },.next ((env.ids.filterMap table.lookup).map fun row => .dispatch ⟨row,s.payloads row.id⟩))
    else none
  | .dispatch c => some (s,.next [.resolve (.dispatch c) c.payload.attachmentIds []])
  | .openStored c [] bodies => some (s,.next [.sendMail c bodies])
  | .openStored c (att :: stored) bodies =>
    some (s,match s.uploads.objects (.attachment att.contentHash) with
      | none => .next [.closeError c (js "object not found")]
      | some body => .next [.openStored c stored (bodies ++ [body])])
  | .sendMail c _ => some (s,.next [.append c])
  | .append c => some (s,.next [.bust c])
  | .bust c => some (s,.next [.closeSent c])
  | .closeSent c => some ({ s with table := Webmail.closeSent env.now s.table c.row.id },.next [])
  | .closeError c message => some ({ s with table := Webmail.closeError cfg.sends env.now s.table c.row message },.next [])

/-- The bodies go to the transport, whatever comes of it. -/
def hand : OutboundInstr → OutboundState
  | .sendMail c bodies => { s with handed := c.payload.attachments.map (·.content) ++ bodies ++ s.handed }
  | _ => s

def exec (instr : OutboundInstr) (env : OutboundEnv) : Option (OutboundState × Foundation.Outcome OutboundInstr) :=
  match env.exception,instr with
  | some _,.upload instr => (execUpload sha256 s.uploads instr ⟨true⟩).map fun r => ({ s with uploads := r.1 },liftUpload r.2)
  | some message,instr => some (s.hand instr,failure message instr)
  | none,instr => (s.hand instr).act sha256 cfg instr env

def empty : OutboundState := ⟨⟨.empty,.empty,fun _ => none,[]⟩,fun _ => .pending,.empty,fun _ => ⟨[],[]⟩,[],[]⟩

end OutboundState

abbrev OutboundTasks := Tasks OutboundState OutboundInstr

variable (sha256 : Bytes → JsString) (cfg : DispatchConfig)

def outboundStep : OutboundTasks → TaskAction OutboundOp OutboundEnv → Option OutboundTasks :=
  taskStep (OutboundState.exec · sha256 cfg) OutboundOp.body

/-- What has been handed over has been reported clean. Nothing is reported where something is handed over, so
that it has been before. -/
def AllScanned (s : OutboundState) : Prop := ∀ body ∈ s.handed, body ∈ s.clean

/-- The inline attachments that are handed over have been reported clean, as stored ones; and no upload
replaces a stored body by another one of the same hash. -/
def InlineScanned (s : OutboundState) : OutboundInstr → Prop
  | .sendMail c _ => ∀ a ∈ c.payload.attachments, a.content ∈ s.clean
  | .upload (.putFinal _ body) => ∀ old ∈ s.uploads.objects (.attachment (sha256 body)), old = body
  | _ => True

def InlineScannedStep (s : OutboundTasks) (a : TaskAction OutboundOp OutboundEnv) : Prop :=
  ∀ instr ∈ s.instr a, InlineScanned sha256 s.shared instr

instance (s : OutboundState) : (instr : OutboundInstr) → Decidable (InlineScanned sha256 s instr)
  | .sendMail c _ => inferInstanceAs (Decidable (∀ a ∈ c.payload.attachments, a.content ∈ s.clean))
  | .upload (.putFinal _ body) => inferInstanceAs (Decidable (∀ old ∈ s.uploads.objects (.attachment (sha256 body)), old = body))
  | .upload (.selectUpload _ _ _) | .upload (.readStaged _ _) | .upload (.putStaged _ _ _) | .upload (.updateCounters _ _)
  | .upload (.selectComplete _) | .upload (.streamStaged _) | .upload (.selectExisting _ _) | .upload (.removeStaged _ _)
  | .upload (.insertAttachment _ _) | .upload (.deleteUpload _ _)
  | .createUpload _ _ _ | .resolve _ _ _ | .scan _ _ _ _ | .markVirusStatus _ _ _ _ _ | .checkLimits _ _ | .creds _ | .insertSend _
  | .cancel _ _ _ | .claim | .dispatch _ | .openStored _ _ _ | .append _ | .bust _ | .closeSent _ | .closeError _ _ => .isTrue trivial

instance (s : OutboundTasks) (a : TaskAction OutboundOp OutboundEnv) : Decidable (InlineScannedStep sha256 s a) :=
  inferInstanceAs (Decidable (∀ instr ∈ s.instr a, InlineScanned sha256 s.shared instr))

end Model

section Invariant
variable {sha256 : Bytes → JsString} {cfg : DispatchConfig} {s s' : OutboundState} {instr : OutboundInstr}
  {outcome : Foundation.Outcome OutboundInstr} {env : OutboundEnv} {stored : List AttachmentRow} {ids : List JsString}
variable {r : Resolver}

/-- The body that is stored for a hash has been reported clean. -/
def ScannedBody (s : OutboundState) (contentHash : JsString) : Prop :=
  ∃ body, s.uploads.objects (.attachment contentHash) = some body ∧ body ∈ s.clean

/-- Stored bodies stay, and so do verdicts. -/
structure Settles (s s' : OutboundState) : Prop where
  objects : ∀ contentHash body, s.uploads.objects (.attachment contentHash) = some body →
    s'.uploads.objects (.attachment contentHash) = some body
  clean : s.clean ⊆ s'.clean

theorem Settles.refl (s : OutboundState) : Settles s s := ⟨fun _ _ h => h,List.Subset.refl _⟩

theorem ScannedBody.settles {contentHash : JsString} (h : ScannedBody s contentHash) (hsettles : Settles s s') :
    ScannedBody s' contentHash := by
  obtain ⟨body,hbody,hclean⟩ := h
  exact ⟨body,hsettles.objects _ _ hbody,hsettles.clean hclean⟩

def Carries (s : OutboundState) : OutboundInstr → Prop
  | .resolve _ _ stored | .scan _ _ _ stored => ∀ att ∈ stored, ScannedBody s att.contentHash
  | .markVirusStatus _ att clean _ stored => (clean = true → ScannedBody s att.contentHash) ∧ ∀ att ∈ stored, ScannedBody s att.contentHash
  | .openStored _ stored bodies => (∀ att ∈ stored, ScannedBody s att.contentHash) ∧ ∀ body ∈ bodies, body ∈ s.clean
  | .sendMail _ bodies => ∀ body ∈ bodies, body ∈ s.clean
  | _ => True

theorem Carries.settles (h : Carries s instr) (hsettles : Settles s s') : Carries s' instr := by
  cases instr with
  | resolve r ids stored | scan r att ids stored => exact fun att hatt => (h att hatt).settles hsettles
  | markVirusStatus r att clean ids stored =>
    exact ⟨fun hclean => (h.1 hclean).settles hsettles,fun att hatt => (h.2 att hatt).settles hsettles⟩
  | openStored c stored bodies => exact ⟨fun att hatt => (h.1 att hatt).settles hsettles,fun body hbody => hsettles.clean (h.2 body hbody)⟩
  | sendMail c bodies => exact fun body hbody => hsettles.clean (h body hbody)
  | _ => trivial

structure OutboundInv (s : OutboundState) : Prop where
  virus : ∀ contentHash, s.virus contentHash = .clean → ScannedBody s contentHash
  handed : AllScanned s

/-- What an instruction leaves of the invariant. -/
structure KeptScanned (s s' : OutboundState) (outcome : Foundation.Outcome OutboundInstr) : Prop where
  settles : Settles s s'
  inv : OutboundInv s'
  more : outcome.Adds (Carries s')

theorem keptScanned_of_settles (h : OutboundInv s) (hsettles : Settles s s') (hvirus : s'.virus = s.virus) (hhanded : s'.handed = s.handed)
    (hmore : outcome.Adds (Carries s')) : KeptScanned s s' outcome := by
  refine ⟨hsettles,⟨fun contentHash hclean => ?_,fun body hbody => ?_⟩,hmore⟩
  · rw [hvirus] at hclean
    exact (h.virus contentHash hclean).settles hsettles
  · rw [hhanded] at hbody
    exact hsettles.clean (h.handed body hbody)

theorem keptScanned_same (h : OutboundInv s) (hmore : outcome.Adds (Carries s)) : KeptScanned s s outcome :=
  keptScanned_of_settles h (Settles.refl s) rfl rfl hmore

theorem carries_fail (r : Resolver) (message : JsString) : (r.fail message).Adds (Carries s) := by
  cases r with
  | send req => trivial
  | dispatch c => exact Foundation.Outcome.adds_one trivial

theorem carries_upload (uploaded : Foundation.Outcome UploadInstr) : (liftUpload uploaded).Adds (Carries s) := by
  cases uploaded with
  | throw => trivial
  | next uploads =>
    intro instr hinstr
    obtain ⟨upload,-,rfl⟩ := List.mem_map.mp hinstr
    trivial

/-- An upload leaves what is stored under a hash, unless it replaces it by something else. -/
theorem settles_upload {upload : UploadInstr} {fault : Fault} {uploads : UploadState} {uploaded : Foundation.Outcome UploadInstr}
    (hkeeps : InlineScanned sha256 s (.upload upload)) (hexec : execUpload sha256 s.uploads upload fault = some (uploads,uploaded)) :
    Settles s { s with uploads := uploads } := by
  refine ⟨fun contentHash body hbody => ?_,List.Subset.refl _⟩
  rcases execUpload_cases hexec with ⟨-,hfailure⟩ | ⟨-,-,rfl,-⟩ | ⟨more,-,hrun,-⟩
  · obtain ⟨result,-,rfl⟩ := failure_effect hfailure
    exact hbody
  · exact hbody
  · refine ((run_effect hrun).objects _).trans ?_
    cases upload with
    | putFinal u new =>
      dsimp only [UploadInstr.write]
      split
      · rename_i hkey
        rw [StorageKey.attachment.inj hkey] at hbody
        rw [hkeeps body hbody]
      · exact hbody
    | putStaged u chunk merged => simpa [UploadInstr.write,UploadRow.storageKey] using hbody
    | removeStaged u result => simpa [UploadInstr.write,UploadRow.storageKey] using hbody
    | _ => exact hbody

theorem kept_upload (h : OutboundInv s) {upload : UploadInstr} {fault : Fault} (hkeeps : InlineScanned sha256 s (.upload upload))
    (hexec : (execUpload sha256 s.uploads upload fault).map (fun r => ({ s with uploads := r.1 },liftUpload r.2)) = some (s',outcome)) :
    KeptScanned s s' outcome := by
  obtain ⟨⟨uploads,uploaded⟩,hupload,heq⟩ := Option.map_eq_some_iff.mp hexec
  cases heq
  exact keptScanned_of_settles h (settles_upload hkeeps hupload) rfl rfl (carries_upload uploaded)

theorem kept_createUpload (h : OutboundInv s) {filename mime : JsString} {sizeBytes : Nat}
    (hact : s.act sha256 cfg (.createUpload filename mime sizeBytes) env = some (s',outcome)) : KeptScanned s s' outcome := by
  rw [OutboundState.act] at hact
  split at hact
  · cases hact
    exact keptScanned_same h trivial
  · split at hact
    · cases hact
      exact keptScanned_of_settles h ⟨fun _ _ hbody => hbody,List.Subset.refl _⟩ rfl rfl (Foundation.Outcome.adds_nil _)
    · cases hact
      exact keptScanned_same h trivial

/-- An attachment is passed over without a scan only if it is marked clean. -/
theorem kept_resolve (h : OutboundInv s) (hav : cfg.clamavEnabled = true)
    (hcarries : Carries s (.resolve r ids stored)) (hact : s.act sha256 cfg (.resolve r ids stored) env = some (s',outcome)) :
    KeptScanned s s' outcome := by
  have hstored : ∀ att ∈ stored, ScannedBody s att.contentHash := hcarries
  cases ids with
  | nil =>
    cases hact
    refine keptScanned_same h (Foundation.Outcome.adds_one ?_)
    cases r with
    | send req => trivial
    | dispatch c => exact ⟨hstored,fun _ hbody => absurd hbody List.not_mem_nil⟩
  | cons id ids =>
    cases hact
    refine keptScanned_same h ?_
    cases hlookup : s.uploads.attachments.lookup id with
    | none => exact carries_fail r notFound
    | some att =>
      dsimp only
      split
      · exact carries_fail r badRequest
      · split
        · exact Foundation.Outcome.adds_one hstored
        · rename_i hclean
          have hmarked : s.virus id = .clean := by
            by_contra hother
            exact hclean ⟨hav,hother⟩
          refine Foundation.Outcome.adds_one fun att' hatt' => ?_
          rcases List.mem_append.mp hatt' with hold | hnew
          · exact hstored att' hold
          · rw [List.mem_singleton.mp hnew,Table.key_of_lookup hlookup]
            exact h.virus id hmarked

theorem kept_scan (h : OutboundInv s) {att : AttachmentRow}
    (hcarries : Carries s (.scan r att ids stored)) (hact : s.act sha256 cfg (.scan r att ids stored) env = some (s',outcome)) :
    KeptScanned s s' outcome := by
  have hstored : ∀ att ∈ stored, ScannedBody s att.contentHash := hcarries
  simp only [OutboundState.act,Option.some.injEq] at hact
  split at hact
  · cases hact
    exact keptScanned_same h (carries_fail r badRequest)
  · rename_i body hbody
    cases hact
    have hsettles : Settles s { s with clean := if env.verdict then body :: s.clean else s.clean } := by
      refine ⟨fun _ _ h => h,?_⟩
      dsimp only
      split
      · exact List.subset_cons_self body s.clean
      · exact List.Subset.refl _
    refine keptScanned_of_settles h hsettles rfl rfl (Foundation.Outcome.adds_one ⟨fun hverdict => ⟨body,hbody,?_⟩,fun att' hatt' => ?_⟩)
    · rw [hverdict]
      exact List.mem_cons_self
    · exact (hstored att' hatt').settles hsettles

theorem kept_mark (h : OutboundInv s) {att : AttachmentRow} {clean : Bool}
    (hcarries : Carries s (.markVirusStatus r att clean ids stored))
    (hact : s.act sha256 cfg (.markVirusStatus r att clean ids stored) env = some (s',outcome)) : KeptScanned s s' outcome := by
  obtain ⟨hscanned,hstored⟩ := hcarries
  cases hact
  have hsettles : Settles s { s with virus := fun id =>
    if id = att.contentHash then (if clean then .clean else .infected) else s.virus id } :=
    ⟨fun _ _ h => h,List.Subset.refl _⟩
  refine ⟨hsettles,⟨fun contentHash hclean => ?_,h.handed⟩,?_⟩
  · dsimp only at hclean
    split at hclean
    · rename_i hsame
      cases clean with
      | true =>
        rw [hsame]
        exact (hscanned rfl).settles hsettles
      | false => simp at hclean
    · exact (h.virus contentHash hclean).settles hsettles
  · cases clean with
    | false => exact carries_fail r badRequest
    | true =>
      refine Foundation.Outcome.adds_one fun att' hatt' => ?_
      rcases List.mem_append.mp hatt' with hold | hnew
      · exact (hstored att' hold).settles hsettles
      · rw [List.mem_singleton.mp hnew]
        exact (hscanned rfl).settles hsettles

theorem kept_openStored (h : OutboundInv s) {c : ClaimedSend} {bodies : List Bytes}
    (hcarries : Carries s (.openStored c stored bodies)) (hact : s.act sha256 cfg (.openStored c stored bodies) env = some (s',outcome)) :
    KeptScanned s s' outcome := by
  obtain ⟨hstored,hbodies⟩ := hcarries
  cases stored with
  | nil =>
    cases hact
    exact keptScanned_same h (Foundation.Outcome.adds_one hbodies)
  | cons att stored =>
    obtain ⟨body,hbody,hclean⟩ := hstored att List.mem_cons_self
    cases hact
    refine keptScanned_same h ?_
    rw [hbody]
    refine Foundation.Outcome.adds_one ⟨fun att' hatt' => hstored att' (List.mem_cons_of_mem att hatt'),fun body' hbody' => ?_⟩
    rcases List.mem_append.mp hbody' with hold | hnew
    · exact hbodies body' hold
    · rw [List.mem_singleton.mp hnew]
      exact hclean

theorem kept_insertSend (h : OutboundInv s) {req : SendRequest} (hact : s.act sha256 cfg (.insertSend req) env = some (s',outcome)) :
    KeptScanned s s' outcome := by
  rw [OutboundState.act,Option.some.injEq] at hact
  cases hinsert : (resolveSendAt cfg req.sendAt env.now).bind fun sendAt => s.insertSend req env.drawnId sendAt env.now with
  | none =>
    rw [hinsert] at hact
    cases hact
    exact keptScanned_same h trivial
  | some inserted =>
    rw [hinsert] at hact
    cases hact
    obtain ⟨sendAt,-,hrow⟩ := Option.bind_eq_some_iff.mp hinsert
    rw [OutboundState.insertSend] at hrow
    split at hrow
    · cases hrow
      exact keptScanned_of_settles h ⟨fun _ _ hbody => hbody,List.Subset.refl _⟩ rfl rfl (Foundation.Outcome.adds_nil _)
    · simp at hrow

theorem kept_claim (h : OutboundInv s) (hact : s.act sha256 cfg .claim env = some (s',outcome)) : KeptScanned s s' outcome := by
  rw [OutboundState.act] at hact
  obtain ⟨-,hclaimed⟩ := Option.ite_none_right_eq_some.mp hact
  cases hclaimed
  refine keptScanned_of_settles h ⟨fun _ _ hbody => hbody,List.Subset.refl _⟩ rfl rfl fun instr hinstr => ?_
  obtain ⟨row,-,rfl⟩ := List.mem_map.mp hinstr
  trivial

/-- The statements on the rows alone. -/
theorem kept_table (h : OutboundInv s) (table : SendTable) : KeptScanned s { s with table := table } (.next []) :=
  keptScanned_of_settles h ⟨fun _ _ hbody => hbody,List.Subset.refl _⟩ rfl rfl (Foundation.Outcome.adds_nil _)

theorem kept_outboundAct (h : OutboundInv s) (hav : cfg.clamavEnabled = true) (hcarries : Carries s instr)
    (hscanned : InlineScanned sha256 s instr)
    (hact : s.act sha256 cfg instr env = some (s',outcome)) : KeptScanned s s' outcome := by
  cases instr with
  | upload upload => exact kept_upload h hscanned hact
  | createUpload filename mime sizeBytes => exact kept_createUpload h hact
  | resolve r ids stored => exact kept_resolve h hav hcarries hact
  | scan r att ids stored => exact kept_scan h hcarries hact
  | markVirusStatus r att clean ids stored => exact kept_mark h hcarries hact
  | checkLimits req stored =>
    cases hact
    exact keptScanned_same h (Foundation.Outcome.adds_ite (fun _ => trivial) fun _ => Foundation.Outcome.adds_one trivial)
  | creds req =>
    cases hact
    exact keptScanned_same h (Foundation.Outcome.adds_ite (fun _ => Foundation.Outcome.adds_one trivial) fun _ => trivial)
  | insertSend req => exact kept_insertSend h hact
  | cancel id orgId mailboxId =>
    rw [OutboundState.act,Option.some.injEq] at hact
    split at hact
    · cases hact
      exact kept_table h _
    · cases hact
      exact keptScanned_same h trivial
  | claim => exact kept_claim h hact
  | dispatch c =>
    cases hact
    exact keptScanned_same h (Foundation.Outcome.adds_one fun _ hatt => absurd hatt List.not_mem_nil)
  | openStored c stored bodies => exact kept_openStored h hcarries hact
  | sendMail c bodies | append c | bust c =>
    cases hact
    exact keptScanned_same h (Foundation.Outcome.adds_one trivial)
  | closeSent c | closeError c message =>
    cases hact
    exact kept_table h _

/-- What is handed over has been scanned. -/
theorem inv_hand (h : OutboundInv s) (hcarries : Carries s instr) (hscanned : InlineScanned sha256 s instr) :
    OutboundInv (s.hand instr) ∧ Settles s (s.hand instr) := by
  cases instr with
  | sendMail c bodies =>
    refine ⟨⟨h.virus,fun body hbody => ?_⟩,⟨fun _ _ h => h,List.Subset.refl _⟩⟩
    rcases List.mem_append.mp hbody with hnew | hold
    · rcases List.mem_append.mp hnew with hinline | hstored
      · obtain ⟨a,ha,rfl⟩ := List.mem_map.mp hinline
        exact hscanned a ha
      · exact hcarries body hstored
    · exact h.handed body hold
  | _ => exact ⟨h,Settles.refl s⟩

theorem inlineScanned_hand (hscanned : InlineScanned sha256 s instr) : InlineScanned sha256 (s.hand instr) instr := by
  cases instr with
  | sendMail c bodies => exact hscanned
  | _ => exact hscanned

theorem carries_failure (message : JsString) (instr : OutboundInstr) : (OutboundState.failure message instr).Adds (Carries s) := by
  cases instr with
  | resolve r ids stored => exact carries_fail r message
  | markVirusStatus r att clean ids stored => exact carries_fail r message
  | scan r att ids stored => exact carries_fail r badRequest
  | dispatch c | openStored c | sendMail c | bust c | closeSent c | append c => exact Foundation.Outcome.adds_one trivial
  | _ => trivial

theorem kept_outbound (h : OutboundInv s) (hav : cfg.clamavEnabled = true) (hcarries : Carries s instr)
    (hscanned : InlineScanned sha256 s instr) (hexec : s.exec sha256 cfg instr env = some (s',outcome)) : KeptScanned s s' outcome := by
  obtain ⟨hinv,hsettles⟩ := inv_hand h hcarries hscanned
  unfold OutboundState.exec at hexec
  split at hexec
  · exact kept_upload h hscanned hexec
  · cases hexec
    exact ⟨hsettles,hinv,carries_failure _ _⟩
  · obtain ⟨hsettles',hinv',hmore⟩ := kept_outboundAct hinv hav (hcarries.settles hsettles) (inlineScanned_hand hscanned) hexec
    refine ⟨⟨fun contentHash body hbody => ?_,?_⟩,hinv',hmore⟩
    · exact hsettles'.objects _ _ (hsettles.objects _ _ hbody)
    · exact List.Subset.trans hsettles.clean hsettles'.clean

end Invariant

section Runs
variable {sha256 : Bytes → JsString} {cfg : DispatchConfig} {s t : OutboundTasks} {a : TaskAction OutboundOp OutboundEnv}

def OutboundTasksInv (s : OutboundTasks) : Prop := OutboundInv s.shared ∧ ∀ instr, s.Pending instr → Carries s.shared instr

theorem body_carries (s : OutboundState) (op : OutboundOp) : ∀ instr ∈ op.body, Carries s instr := by
  intro instr hinstr
  cases op with
  | send req =>
    obtain rfl := List.mem_singleton.mp hinstr
    exact fun _ hatt => absurd hatt List.not_mem_nil
  | _ =>
    obtain rfl := List.mem_singleton.mp hinstr
    trivial

theorem outbound_step (h : OutboundTasksInv s) (hav : cfg.clamavEnabled = true) (hscanned : InlineScannedStep sha256 s a)
    (hstep : outboundStep sha256 cfg s a = some t) : OutboundTasksInv t := by
  rcases taskStep_cases hstep with ⟨op,rfl,rfl⟩ | ⟨i,env,instr,rest,s',outcome,rfl,hi,hexec,rfl⟩
  · refine ⟨h.1,fun instr hinstr => ?_⟩
    rcases Tasks.pending_call hinstr with hold | hnew
    · exact h.2 instr hold
    · exact body_carries s.shared op instr hnew
  · obtain ⟨hsettles,hinv,hmore⟩ := kept_outbound h.1 hav (h.2 instr (Tasks.pending_head hi)) (hscanned instr (Tasks.instr_exec hi)) hexec
    exact ⟨hinv,Tasks.forall_pending_exec hi (fun instr' hinstr' => (h.2 instr' hinstr').settles hsettles) hmore⟩

theorem outboundInv_empty : OutboundTasksInv ⟨.empty,[]⟩ := by
  refine ⟨⟨?_,?_⟩,?_⟩
  · exact fun _ hclean => nomatch hclean
  · exact fun _ hbody => absurd hbody List.not_mem_nil
  · exact fun _ ⟨_,htask,_⟩ => absurd htask List.not_mem_nil

/-- With virus scanning, stored attachments are sent only if they have been reported clean; and so is
everything, as long as the inline ones have been. -/
theorem sends_scanned (hav : cfg.clamavEnabled = true)
    (hrun : Run (outboundStep sha256 cfg) (InlineScannedStep sha256) ⟨.empty,[]⟩ s) : AllScanned s.shared :=
  (hrun.invariant (fun _ _ _ h hscanned hstep => outbound_step h hav hscanned hstep) outboundInv_empty).1.handed

def scanningConfig : DispatchConfig := ⟨⟨60,30,5⟩,0,30,true⟩
def calmEnv : OutboundEnv := ⟨none,10,7,[7],true,10,1000,true⟩

/-- The hash of the text `abc`. -/
def abcHash : JsString := sampleSha256 [97,98,99]

def storedRequest : SendRequest := ⟨1,2,⟨[abcHash],[]⟩,none⟩
def inlineRequest : SendRequest := ⟨1,2,⟨[],[⟨js "a.txt",js "text/plain",js "YWJj"⟩]⟩,none⟩

/-- A stored attachment is uploaded, scanned when it is sent, and dispatched. -/
theorem stored_attachment_scanned : ∃ s : OutboundTasks, s.shared.handed = [[97,98,99]] ∧ AllScanned s.shared := by
  have hactions : (runActions (outboundStep sampleSha256 scanningConfig) (InlineScannedStep sampleSha256) ⟨.empty,[]⟩
      ([.call (.createUpload (js "a.txt") (js "text/plain") 3),.exec 0 calmEnv,.call (.appendChunk ⟨7,0,[97,98,99]⟩)] ++
        List.replicate 4 (.exec 1 calmEnv) ++ [.call (.finaliseUpload 7)] ++ List.replicate 7 (.exec 2 calmEnv) ++
        [.call (.send storedRequest)] ++ List.replicate 7 (.exec 3 calmEnv) ++
        [.call .processDueSends] ++ List.replicate 10 (.exec 4 calmEnv))).map (·.shared.handed) = some [[97,98,99]] := by
    decide +kernel
  obtain ⟨s,hs,hhanded⟩ := Option.map_eq_some_iff.mp hactions
  exact ⟨s,hhanded,sends_scanned rfl (Run.of_actions hs)⟩

/-- An inline attachment is dispatched without a scan. -/
theorem inline_attachment_unscanned : ∃ s : OutboundTasks,
    Run (outboundStep sampleSha256 scanningConfig) (fun _ _ => True) ⟨.empty,[]⟩ s ∧ ¬AllScanned s.shared := by
  have hactions : (runActions (outboundStep sampleSha256 scanningConfig) (fun _ _ => True) ⟨.empty,[]⟩
      ([.call (.send inlineRequest)] ++ List.replicate 4 (.exec 0 calmEnv) ++ [.call .processDueSends] ++
        List.replicate 5 (.exec 1 calmEnv))).map (fun s => (s.shared.handed,s.shared.clean)) = some ([[97,98,99]],[]) := by
    decide +kernel
  obtain ⟨s,hs,hends⟩ := Option.map_eq_some_iff.mp hactions
  obtain ⟨hhanded,hclean⟩ := Prod.mk.inj hends
  refine ⟨s,Run.of_actions hs,fun hall => ?_⟩
  rw [AllScanned,hhanded,hclean] at hall
  exact absurd (hall _ List.mem_cons_self) List.not_mem_nil

end Runs
end JustMail.Webmail
