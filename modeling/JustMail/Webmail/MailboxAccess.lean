import JustMail.Accounts.Directory
import JustMail.Webmail.Personalization
import JustMail.Webmail.ViewCache

/-! Sessions that are bound to a mailbox. Four services check access to a mailbox on their own:
two by the mailbox of the session, two by its organisation. -/
namespace JustMail.Webmail
open Foundation Accounts
open WebmailCache (View)

section Model

/-- A caller as the guard of the API passes it on. -/
structure Caller where
  sessionId : JsString
  principal : SessionPrincipal

/-- The mailbox operations of `WebmailService`; `ι` is the type of request bodies. -/
inductive WebmailOp (ι : Type) where
  | startWatch (folder : JsString)
  | unlock (password : JsString)
  | listFolders
  | listMessages (folder : JsString) (limit : Nat)
  | search (folder : JsString) (input : ι)
  | syncMessages (folder : JsString) (input : ι)
  | getMessage (folder : JsString) (uid : Nat) (input : ι)
  | getAttachment (folder : JsString) (uid index : Nat) (input : ι)
  | setFlag (folder : JsString) (uid : Nat) (input : ι)
  | move (folder : JsString) (uid : Nat) (dest : JsString)
  | remove (folder : JsString) (uid : Nat)
  | createFolder (name : JsString)
  | renameFolder (path name : JsString)
  | deleteFolder (path : JsString)
  | send (input : ι)
  | attachmentLimits
  | cancelScheduledSend (id : Nat)
  | listScheduledSends
  | getSendStatus (id : Nat)
  | saveDraft (input : ι)
  | discardDraft (uid : Nat)

inductive SieveOp (ι : Type) where
  | listRules
  | createRule (input : ι)
  | updateRule (id : Nat) (input : ι)
  | deleteRule (id : Nat)

inductive MailboxOp (ι : Type) where
  | webmail (op : WebmailOp ι)
  | sieve (op : SieveOp ι)
  | personalization (op : PersonalizationOp)
  | avatar (op : AvatarOp)

variable (δ ρ γ ι : Type)

/-- The state that the services share. `uploads` is what organisations have of attachments and
settings. -/
structure MailWorld where
  accounts : AccountDb
  now : Nat
  uploads : γ
  credentials : JsString × Nat → Option (JsString × JsString)
  views : JsString × Nat × View → Option ρ
  data : Nat → MailboxData δ

/-- What the operations do once access is granted, as the mail server and the tables have it: the
login of `unlock`, the check of attachments in `send`, and the effect on the mailbox. -/
structure MailBackend extends Personalizer where
  login : JsString → JsString → Bool
  resolveAttachments : ι → γ → Except MailFailure Unit × γ
  webmail : WebmailOp ι → δ → Except MailFailure (ρ × δ)
  sieve : SieveOp ι → δ → Except MailFailure (ρ × δ)

variable {δ ρ γ ι}

def MailWorld.withData (s : MailWorld δ ρ γ) (mailboxId : Nat) (d : MailboxData δ) : MailWorld δ ρ γ :=
  { s with data := Function.update s.data mailboxId d }

end Model

section Checks
variable {δ ρ γ : Type} (s : MailWorld δ ρ γ) (caller : Caller) (orgId mailboxId : Nat)

def accessFailure : AccessError → MailFailure
  | .orgNotFound => .orgNotFound
  | .insufficientRole _ => .insufficientRole

/-- `SELECT .. FROM mailboxes m JOIN domains d WHERE m.id = $1 AND d.org_id = $2`. -/
def mailboxOf : Option (MailAccountRow × MailDomainRow) := (mailboxWithDomain s.accounts mailboxId).filter (·.2.orgId == orgId)

/-- A session that is bound has its own mailbox, others need a role. -/
def boundAllowed : Except MailFailure Unit :=
  match caller.principal.mailboxId with
  | some own => if own ≠ mailboxId ∨ caller.principal.orgId.any (· != orgId) then .error .notAccessible else .ok ()
  | none => match requireRole s.accounts s.now orgId caller.principal.userId .member with
    | .error e => .error (accessFailure e)
    | .ok _ => .ok ()

def boundMailbox : Except MailFailure JsString :=
  match boundAllowed s caller orgId mailboxId with
  | .error e => .error e
  | .ok () => match mailboxOf s orgId mailboxId with
    | none => .error .mailboxNotFound
    | some p => .ok (mailAddress p.1 p.2)

/-- Of `WebmailService`. -/
def mailboxFor : Except MailFailure JsString := boundMailbox s caller orgId mailboxId

/-- Of `SieveService`. -/
def resolveMailbox : Except MailFailure JsString := boundMailbox s caller orgId mailboxId

/-- Of `OrgsService`. -/
def requireOrgAccess (minRole : OrgRole) : Except MailFailure Unit :=
  if caller.principal.mailboxId.isSome ∧ caller.principal.orgId = some orgId then
    if minRole.rank ≤ OrgRole.member.rank then .ok () else .error .insufficientRole
  else match requireRole s.accounts s.now orgId caller.principal.userId minRole with
    | .error e => .error (accessFailure e)
    | .ok _ => .ok ()

/-- Of `PersonalizationService` and of `AvatarService`. -/
def assertAccess : Except MailFailure Unit :=
  match requireOrgAccess s caller orgId .member with
  | .error e => .error e
  | .ok () => match mailboxOf s orgId mailboxId with
    | none => .error .mailboxNotFound
    | some _ => .ok ()

end Checks

section Operations
variable {δ ρ γ ι : Type} (env : MailBackend δ ρ γ ι) (caller : Caller) (orgId mailboxId : Nat)

/-- The cached view that an operation looks for first. -/
def WebmailOp.view : WebmailOp ι → Option View
  | .listFolders => some .folders
  | .listMessages folder limit => some (.messageList folder limit)
  | _ => none

def PROTECTED_FOLDERS : List JsString := [js "inbox",js "sent",js "drafts",js "trash",js "junk"]

def assertMutableFolder (cm : CaseMapping) (path : JsString) : Option MailFailure :=
  if PROTECTED_FOLDERS.contains (cm.toLowerCase (trim path)) then some .systemFolder else none

def folderName (name : JsString) : Option MailFailure :=
  if (trim name).isEmpty ∨ 255 < (trim name).length then some .invalidFolderName else none

/-- What is refused before the mailbox is looked at. -/
def WebmailOp.refused (cm : CaseMapping) : WebmailOp ι → Option MailFailure
  | .createFolder name => folderName name
  | .renameFolder path name => (folderName name).or (assertMutableFolder cm path)
  | .deleteFolder path => assertMutableFolder cm path
  | _ => none

/-- Operations that do without the password of the mailbox. -/
def WebmailOp.locked : WebmailOp ι → Bool
  | .unlock _ | .attachmentLimits | .cancelScheduledSend _ | .listScheduledSends | .getSendStatus _ => true
  | _ => false

/-- Operations that end with `bustMailbox`. -/
def WebmailOp.busts : WebmailOp ι → Bool
  | .setFlag .. | .move .. | .remove .. | .createFolder _ | .renameFolder .. | .deleteFolder _ | .saveDraft _ | .discardDraft _ => true
  | _ => false

/-- The cached views after an operation has ended. -/
def WebmailOp.viewsAfter (op : WebmailOp ι) (sessionId : JsString) (mailboxId : Nat) (out : ρ)
    (views : JsString × Nat × View → Option ρ) : JsString × Nat × View → Option ρ := fun k =>
  if k.1 = sessionId ∧ k.2.1 = mailboxId ∧ op.busts then none
  else if k.1 = sessionId ∧ k.2.1 = mailboxId ∧ op.view = some k.2.2 then some out
  else views k

/-- `send` resolves its attachments before anything else. -/
def WebmailOp.prepare (op : WebmailOp ι) (uploads : γ) : Except MailFailure Unit × γ :=
  match op with
  | .send input => env.resolveAttachments input uploads
  | _ => (.ok (),uploads)

/-- The password that `unlock` is called with. -/
def WebmailOp.password : WebmailOp ι → Option JsString
  | .unlock password => some password
  | _ => none

/-- An operation whose access has been granted. -/
def WebmailOp.granted (op : WebmailOp ι) (address : JsString) (s : MailWorld δ ρ γ) : Except MailFailure (Reply ρ) × MailWorld δ ρ γ :=
  match op.password with
  | some password =>
    if env.login address password then
      (.ok .done,{ s with credentials := Function.update s.credentials (caller.sessionId,mailboxId) (some (address,password)) })
    else (.error .wrongPassword,s)
  | none =>
    if !op.locked ∧ (s.credentials (caller.sessionId,mailboxId)).isNone then (.error .mailboxLocked,s)
    else match env.webmail op (s.data mailboxId).rest with
      | .error e => (.error e,s)
      | .ok (out,rest) =>
        (.ok (.mail out),{ s.withData mailboxId { s.data mailboxId with rest := rest } with
          views := op.viewsAfter caller.sessionId mailboxId out s.views })

def WebmailOp.run (op : WebmailOp ι) (s : MailWorld δ ρ γ) : Except MailFailure (Reply ρ) × MailWorld δ ρ γ :=
  match op.view.bind fun v => s.views (caller.sessionId,mailboxId,v) with
  | some out => (.ok (.mail out),s)
  | none => match op.refused env.cm with
    | some e => (.error e,s)
    | none => match op.prepare env s.uploads with
      | (.error e,uploads) => (.error e,{ s with uploads := uploads })
      | (.ok (),uploads) => match mailboxFor s caller orgId mailboxId with
        | .error e => (.error e,{ s with uploads := uploads })
        | .ok address => op.granted env caller mailboxId address { s with uploads := uploads }

def SieveOp.run (op : SieveOp ι) (s : MailWorld δ ρ γ) : Except MailFailure (Reply ρ) × MailWorld δ ρ γ :=
  match resolveMailbox s caller orgId mailboxId with
  | .error e => (.error e,s)
  | .ok _ => match env.sieve op (s.data mailboxId).rest with
    | .error e => (.error e,s)
    | .ok (out,rest) => (.ok (.mail out),s.withData mailboxId { s.data mailboxId with rest := rest })

/-- An operation on the rows or the picture of a mailbox, behind `assertAccess`. -/
def onMailbox (f : MailboxData δ → Except MailFailure (Reply ρ × MailboxData δ)) (s : MailWorld δ ρ γ) :
    Except MailFailure (Reply ρ) × MailWorld δ ρ γ :=
  match assertAccess s caller orgId mailboxId with
  | .error e => (.error e,s)
  | .ok () => match f (s.data mailboxId) with
    | .error e => (.error e,s)
    | .ok (reply,d) => (.ok reply,s.withData mailboxId d)

def MailboxOp.run (op : MailboxOp ι) (s : MailWorld δ ρ γ) : Except MailFailure (Reply ρ) × MailWorld δ ρ γ :=
  match op with
  | .webmail op => op.run env caller orgId mailboxId s
  | .sieve op => op.run env caller orgId mailboxId s
  | .personalization op => onMailbox caller orgId mailboxId (fun d => op.apply env.toPersonalizer d) s
  | .avatar op => onMailbox caller orgId mailboxId (fun d => op.apply env.toPersonalizer mailboxId d) s

/-- Requests of any session, and what other parts of the system do in between: views expire,
everything else may change. -/
inductive MailAction (δ ρ γ ι : Type) where
  | call (caller : Caller) (orgId mailboxId : Nat) (op : MailboxOp ι)
  | lock (caller : Caller) (mailboxId : Nat)
  | environment (t : MailWorld δ ρ γ)

def mailStep (s : MailWorld δ ρ γ) : MailAction δ ρ γ ι → Option (MailWorld δ ρ γ)
  | .call caller orgId mailboxId op => some (op.run env caller orgId mailboxId s).2
  | .lock caller mailboxId => some { s with credentials := Function.update s.credentials (caller.sessionId,mailboxId) none }
  | .environment t => some t

/-- The mailbox of a session is that of its row, which is written once. -/
def MailAllowed (bound : JsString → Option Nat) (s : MailWorld δ ρ γ) : MailAction δ ρ γ ι → Prop
  | .call caller _ _ _ => caller.principal.mailboxId = bound caller.sessionId
  | .lock _ _ => True
  | .environment t => ∀ k out, t.views k = some out → s.views k = some out

/-- The operation fails in the same way whatever the mailbox holds, and leaves that as it is. -/
def FailsUntouched (op : MailboxOp ι) (s : MailWorld δ ρ γ) : Prop :=
  ∃ e, ∀ d, (op.run env caller orgId mailboxId (s.withData mailboxId d)).1 = .error e ∧
    (op.run env caller orgId mailboxId (s.withData mailboxId d)).2.data mailboxId = d

/-- The organisation is that of the session, or one in which its user has a role, and the mailbox
belongs to it. -/
def InReach (s : MailWorld δ ρ γ) : Prop :=
  (caller.principal.orgId = some orgId ∨ (requireRole s.accounts s.now orgId caller.principal.userId .member).isOk = true) ∧
  ∃ p ∈ mailboxWithDomain s.accounts mailboxId, p.2.orgId = orgId

/-- The operations that go by the organisation of the mailbox; `setProfileAvatar` refuses some
pictures before it looks at anything else. -/
def GoesByOrg : MailboxOp ι → Prop
  | .webmail _ | .sieve _ => False
  | .personalization _ | .avatar .removeProfileAvatar => True
  | .avatar (.setProfileAvatar dataUrl) => (acceptedPicture env.toPersonalizer dataUrl).isOk = true

end Operations

section Views
variable {δ ρ γ ι : Type} {env : MailBackend δ ρ γ ι} {caller : Caller} {orgId mailboxId : Nat} {bound : JsString → Option Nat}
  {s t : MailWorld δ ρ γ}

/-- A session that is bound has views of its own mailbox only. -/
def OwnViews (bound : JsString → Option Nat) (s : MailWorld δ ρ γ) : Prop :=
  ∀ sessionId mailboxId v out, s.views (sessionId,mailboxId,v) = some out → ∀ own ∈ bound sessionId, own = mailboxId

theorem boundMailbox_own {address : JsString} (h : boundMailbox s caller orgId mailboxId = .ok address) :
    ∀ own ∈ caller.principal.mailboxId, own = mailboxId := by
  intro own hown
  by_contra hne
  have hrefused : boundAllowed s caller orgId mailboxId = .error .notAccessible := by
    rw [boundAllowed,Option.mem_def.mp hown]
    exact if_pos (.inl hne)
  rw [boundMailbox,hrefused] at h
  simp at h

theorem ownViews_of_views (h : OwnViews bound s) (hviews : t.views = s.views) : OwnViews bound t := by
  rw [OwnViews,hviews]
  exact h

theorem ownViews_granted {op : WebmailOp ι} {address : JsString} (h : OwnViews bound s)
    (hown : ∀ own ∈ bound caller.sessionId, own = mailboxId) :
    OwnViews bound (op.granted env caller mailboxId address s).2 := by
  rw [WebmailOp.granted]
  split
  · split
    · exact h
    · exact h
  · split
    · exact h
    · split
      · exact h
      · rename_i out rest _
        intro sessionId mailboxId' v out' hview
        dsimp only [WebmailOp.viewsAfter] at hview
        split at hview
        · simp at hview
        · split at hview
          · rename_i hset
            obtain ⟨rfl,rfl,-⟩ := hset
            exact hown
          · exact h sessionId mailboxId' v out' hview

theorem ownViews_webmail {op : WebmailOp ι} (h : OwnViews bound s) (hcaller : caller.principal.mailboxId = bound caller.sessionId) :
    OwnViews bound (op.run env caller orgId mailboxId s).2 := by
  rw [WebmailOp.run]
  split
  · exact h
  · split
    · exact h
    · split
      · exact h
      · split
        · exact h
        · rename_i address haddress
          refine ownViews_granted h ?_
          rw [← hcaller]
          exact boundMailbox_own haddress

theorem onMailbox_views (f : MailboxData δ → Except MailFailure (Reply ρ × MailboxData δ)) :
    (onMailbox caller orgId mailboxId f s).2.views = s.views := by
  rw [onMailbox]
  split
  · rfl
  · split
    · rfl
    · rfl

theorem sieve_views (op : SieveOp ι) : (op.run env caller orgId mailboxId s).2.views = s.views := by
  rw [SieveOp.run]
  split
  · rfl
  · split
    · rfl
    · rfl

theorem ownViews_step {a : MailAction δ ρ γ ι} (h : OwnViews bound s) (hallowed : MailAllowed bound s a)
    (hstep : mailStep env s a = some t) :
    OwnViews bound t := by
  cases a with
  | call caller orgId mailboxId op =>
    cases hstep
    cases op with
    | webmail op => exact ownViews_webmail h hallowed
    | sieve op => exact ownViews_of_views h (sieve_views op)
    | personalization op => exact ownViews_of_views h (onMailbox_views _)
    | avatar op => exact ownViews_of_views h (onMailbox_views _)
  | lock caller mailboxId =>
    cases hstep
    exact h
  | environment t =>
    cases hstep
    exact fun sessionId mailboxId v out hview => h sessionId mailboxId v out (hallowed _ _ hview)

end Views

section Confined
variable {δ ρ γ ι : Type} {env : MailBackend δ ρ γ ι} {caller : Caller} {orgId mailboxId own : Nat} {bound : JsString → Option Nat}
  {s : MailWorld δ ρ γ} {f : MailboxData δ → Except MailFailure (Reply ρ × MailboxData δ)}

theorem withData_data (s : MailWorld δ ρ γ) (mailboxId : Nat) (d : MailboxData δ) : (s.withData mailboxId d).data mailboxId = d := by
  simp [MailWorld.withData]

/-- A session that is bound to another mailbox is turned away. -/
theorem boundMailbox_refused (hown : caller.principal.mailboxId = some own) (hne : own ≠ mailboxId) :
    boundMailbox s caller orgId mailboxId = .error .notAccessible := by
  have hrefused : boundAllowed s caller orgId mailboxId = .error .notAccessible := by
    rw [boundAllowed,hown]
    exact if_pos (.inl hne)
  rw [boundMailbox,hrefused]

theorem OwnViews.foreign (h : OwnViews bound s) (hown : bound caller.sessionId = some own) (hne : own ≠ mailboxId) (v : Option View) :
    (v.bind fun v => s.views (caller.sessionId,mailboxId,v)) = none := by
  cases hfind : v.bind fun v => s.views (caller.sessionId,mailboxId,v) with
  | none => rfl
  | some out =>
    obtain ⟨v,-,hout⟩ := Option.bind_eq_some_iff.mp hfind
    exact absurd (h _ _ _ _ hout own hown) hne

/-- Without a view in the cache, a call is refused before it comes to the mailbox. -/
theorem webmail_refused (op : WebmailOp ι) (hown : caller.principal.mailboxId = some own) (hne : own ≠ mailboxId)
    (hview : (op.view.bind fun v => s.views (caller.sessionId,mailboxId,v)) = none) :
    ∃ e uploads, ∀ d, op.run env caller orgId mailboxId (s.withData mailboxId d) =
    (.error e,{ s.withData mailboxId d with uploads := uploads }) := by
  have hviews : ∀ d, (op.view.bind fun v => (s.withData mailboxId d).views (caller.sessionId,mailboxId,v)) = none := fun _ => hview
  cases hrefused : op.refused env.cm with
  | some e =>
    refine ⟨e,s.uploads,fun d => ?_⟩
    rw [WebmailOp.run,hviews,hrefused]
    rfl
  | none =>
    cases hprepare : op.prepare env s.uploads with
    | mk result uploads =>
      have hprepared : ∀ d, op.prepare env (s.withData mailboxId d).uploads = (result,uploads) := fun _ => hprepare
      cases result with
      | error e =>
        refine ⟨e,uploads,fun d => ?_⟩
        rw [WebmailOp.run,hviews,hrefused,hprepared]
      | ok u =>
        refine ⟨.notAccessible,uploads,fun d => ?_⟩
        rw [WebmailOp.run,hviews,hrefused,hprepared,mailboxFor,boundMailbox_refused hown hne]

theorem webmail_fails (op : WebmailOp ι) (hown : caller.principal.mailboxId = some own) (hne : own ≠ mailboxId)
    (hcaller : caller.principal.mailboxId = bound caller.sessionId) (h : OwnViews bound s) :
    FailsUntouched env caller orgId mailboxId (.webmail op) s := by
  obtain ⟨e,uploads,hrun⟩ := webmail_refused op hown hne (h.foreign (hcaller ▸ hown) hne op.view)
  refine ⟨e,fun d => ?_⟩
  rw [MailboxOp.run,hrun]
  exact ⟨rfl,withData_data s mailboxId d⟩

theorem sieve_fails (op : SieveOp ι) (hown : caller.principal.mailboxId = some own) (hne : own ≠ mailboxId) :
    FailsUntouched env caller orgId mailboxId (.sieve op) s := by
  refine ⟨.notAccessible,fun d => ?_⟩
  rw [MailboxOp.run,SieveOp.run,resolveMailbox,boundMailbox_refused hown hne]
  exact ⟨rfl,withData_data s mailboxId d⟩

/-- For a session that is bound, `assertAccess` asks for the organisation. -/
theorem assertAccess_ok (hown : caller.principal.mailboxId = some own) :
    assertAccess s caller orgId mailboxId = .ok () ↔ InReach caller orgId mailboxId s := by
  have horg : requireOrgAccess s caller orgId .member = .ok () ↔
      caller.principal.orgId = some orgId ∨ (requireRole s.accounts s.now orgId caller.principal.userId .member).isOk = true := by
    rw [requireOrgAccess,hown]
    by_cases hsame : caller.principal.orgId = some orgId
    · simp [hsame]
    · cases hrole : requireRole s.accounts s.now orgId caller.principal.userId .member with
      | error e => simp [hsame,Except.isOk,Except.toBool]
      | ok role => simp [hsame,Except.isOk,Except.toBool]
  have hmailbox : (∃ p ∈ mailboxWithDomain s.accounts mailboxId, p.2.orgId = orgId) ↔ (mailboxOf s orgId mailboxId).isSome = true := by
    rw [mailboxOf]
    cases mailboxWithDomain s.accounts mailboxId with
    | none => simp
    | some p => simp [Option.filter]
  rw [InReach,← horg,hmailbox,assertAccess]
  cases requireOrgAccess s caller orgId .member with
  | error e => simp
  | ok u =>
    cases mailboxOf s orgId mailboxId with
    | none => simp
    | some p => simp

/-- What an operation does behind `assertAccess`, for mailboxes that hold `d`. -/
theorem onMailbox_granted (haccess : assertAccess s caller orgId mailboxId = .ok ())
    (d : MailboxData δ) : (onMailbox caller orgId mailboxId f (s.withData mailboxId d)).1 = (f d).map (·.1) := by
  rw [onMailbox,show assertAccess (s.withData mailboxId d) caller orgId mailboxId = .ok () from haccess]
  dsimp only
  rw [withData_data]
  cases f d with
  | error e => rfl
  | ok r => rfl

theorem onMailbox_refused {e : MailFailure}
    (haccess : assertAccess s caller orgId mailboxId = .error e) (d : MailboxData δ) :
    onMailbox caller orgId mailboxId f (s.withData mailboxId d) = (.error e,s.withData mailboxId d) := by
  rw [onMailbox,show assertAccess (s.withData mailboxId d) caller orgId mailboxId = .error e from haccess]

/-- Some contents of the mailbox let the operation succeed. -/
theorem personalization_succeeds (env : Personalizer) (op : PersonalizationOp) (d : MailboxData δ) :
    ¬∃ e, ∀ d : MailboxData δ, op.apply env d = (.error e : Except MailFailure (Reply ρ × MailboxData δ)) := by
  rintro ⟨e,h⟩
  cases op with
  | updateSignature id input =>
    have hrow := h { d with signatures := [⟨id,[],[],[],false⟩] }
    have hfound : ((if input.isDefault then demote (some id) [⟨id,[],[],[],false⟩]
      else [⟨id,[],[],[],false⟩]).any (·.id == id)) = true := by
      split
      · simp [demote]
      · simp
    rw [PersonalizationOp.apply,Webmail.updateSignature,if_pos hfound] at hrow
    exact nomatch hrow
  | deleteSignature id =>
    have hrow := h { d with signatures := [⟨id,[],[],[],false⟩] }
    rw [PersonalizationOp.apply,Webmail.deleteSignature,if_pos (by simp)] at hrow
    exact nomatch hrow
  | updateTemplate id input =>
    have hrow := h { d with templates := [⟨id,[],[],[],[]⟩] }
    rw [PersonalizationOp.apply,Webmail.updateTemplate,if_pos (by simp)] at hrow
    exact nomatch hrow
  | deleteTemplate id =>
    have hrow := h { d with templates := [⟨id,[],[],[],[]⟩] }
    rw [PersonalizationOp.apply,Webmail.deleteTemplate,if_pos (by simp)] at hrow
    exact nomatch hrow
  | listSignatures => exact nomatch h d
  | createSignature input newId => exact nomatch h d
  | listTemplates => exact nomatch h d
  | createTemplate input newId => exact nomatch h d

/-- Behind `assertAccess` the outcome is that of the check, or what the operation makes of the
mailbox. -/
theorem onMailbox_fails {op : MailboxOp ι} (hown : caller.principal.mailboxId = some own)
    (hop : op.run env caller orgId mailboxId = onMailbox caller orgId mailboxId f) :
    FailsUntouched env caller orgId mailboxId op s ↔ ¬InReach caller orgId mailboxId s ∨ ∃ e, ∀ d, f d = .error e := by
  rw [← assertAccess_ok hown,FailsUntouched,hop]
  cases haccess : assertAccess s caller orgId mailboxId with
  | error e =>
    refine iff_of_true ⟨e,fun d => ?_⟩ (.inl (by simp))
    rw [onMailbox_refused haccess]
    exact ⟨rfl,withData_data s mailboxId d⟩
  | ok u =>
    have hnot : ¬¬(Except.ok u : Except MailFailure Unit) = .ok () := not_not_intro rfl
    rw [or_iff_right hnot]
    refine exists_congr fun e => forall_congr' fun d => ?_
    rw [onMailbox_granted haccess]
    constructor
    · rintro ⟨herror,-⟩
      cases hf : f d with
      | error e' =>
        rw [hf] at herror
        rw [Except.error.inj herror]
      | ok r => simp [hf,Except.map] at herror
    · intro hf
      refine ⟨by rw [hf]; rfl,?_⟩
      rw [onMailbox,show assertAccess (s.withData mailboxId d) caller orgId mailboxId = .ok () from haccess]
      dsimp only
      rw [withData_data,hf]
      exact withData_data s mailboxId d

/-- A picture is refused before the mailbox is touched, whatever it holds. -/
theorem setProfileAvatar_refuses (dataUrl : JsString) (data : MailboxData δ) :
    (∃ e, ∀ d : MailboxData δ, (AvatarOp.setProfileAvatar dataUrl).apply env.toPersonalizer mailboxId d =
      (.error e : Except MailFailure (Reply ρ × MailboxData δ))) ↔ ¬(acceptedPicture env.toPersonalizer dataUrl).isOk = true := by
  simp only [AvatarOp.apply,Webmail.setProfileAvatar]
  cases acceptedPicture env.toPersonalizer dataUrl with
  | error e => exact iff_of_true ⟨e,fun _ => rfl⟩ (by simp [Except.isOk,Except.toBool])
  | ok picture =>
    refine iff_of_false ?_ (by simp [Except.isOk,Except.toBool])
    rintro ⟨e,h⟩
    cases h data

/-- A session bound to one mailbox fails on another without touching it, unless the operation goes by
the organisation and that is within reach. -/
theorem bound_session_confined {s₀ : MailWorld δ ρ γ} (hrun : Run (mailStep env) (MailAllowed bound) s₀ s)
    (hstart : ∀ k, s₀.views k = none)
    (hcaller : caller.principal.mailboxId = bound caller.sessionId) (hown : caller.principal.mailboxId = some own) (hne : own ≠ mailboxId)
    (orgId : Nat) (op : MailboxOp ι) :
    FailsUntouched env caller orgId mailboxId op s ↔ ¬(GoesByOrg env op ∧ InReach caller orgId mailboxId s) := by
  have hviews : OwnViews bound s := by
    refine hrun.invariant (fun _ _ _ h hallowed hstep => ownViews_step h hallowed hstep) ?_
    intro sessionId mailboxId v out hview
    simp [hstart] at hview
  cases op with
  | webmail op => exact iff_of_true (webmail_fails op hown hne hcaller hviews) (fun h => h.1)
  | sieve op => exact iff_of_true (sieve_fails op hown hne) (fun h => h.1)
  | personalization op =>
    rw [onMailbox_fails (f := fun d => op.apply env.toPersonalizer d) hown rfl]
    simp [GoesByOrg,personalization_succeeds env.toPersonalizer op (s.data mailboxId)]
  | avatar op =>
    rw [onMailbox_fails (f := fun d => op.apply env.toPersonalizer mailboxId d) hown rfl]
    cases op with
    | removeProfileAvatar =>
      have hsucceeds : ¬∃ e, ∀ d : MailboxData δ,
          AvatarOp.removeProfileAvatar.apply env.toPersonalizer mailboxId d =
            (.error e : Except MailFailure (Reply ρ × MailboxData δ)) := by
        rintro ⟨e,h⟩
        exact nomatch h (s.data mailboxId)
      simp [GoesByOrg,hsucceeds]
    | setProfileAvatar dataUrl =>
      rw [setProfileAvatar_refuses dataUrl (s.data mailboxId),GoesByOrg]
      tauto

/-- Organisation 2 hosts the mailboxes of the boss and of a clerk. -/
def officeDb : AccountDb where
  users := ⟨[⟨1,js "the.boss@office.a",js "Boss",none,none,false,.active⟩],by decide⟩
  emails := by decide
  members := .empty
  membersUsers := by decide
  apiKeys := .empty
  sessions := .empty
  domains := ⟨[⟨1,2,⟨js "office.a",by decide,by decide⟩⟩],by decide⟩
  mailboxes := ⟨[⟨1,1,⟨js "the.boss",by decide,by decide⟩,[],.active⟩,⟨2,1,⟨js "clerk",by decide,by decide⟩,[],.active⟩],by decide⟩
  invites := .empty
  identities := .empty
  identitiesUsers := by decide

def plainBackend : MailBackend Unit Unit Unit Unit where
  cm := asciiCase
  sanitizeMailHtml := id
  nameLe _ _ := true
  PROFILE_AVATAR_MAX_BYTES := 200000
  login _ _ := true
  resolveAttachments _ uploads := (.ok (),uploads)
  webmail _ _ := .ok ((),())
  sieve _ _ := .ok ((),())

def officeStart : MailWorld Unit Unit Unit :=
  ⟨officeDb,0,(),fun _ => none,fun _ => none,fun _ => ⟨[],[],none,fun _ => none,()⟩⟩

def bossSession : Caller := ⟨js "s",⟨1,js "the.boss@office.a",js "Boss",some 1,some 2⟩⟩

/-- The session has seen its own folders and is turned away from those of the clerk. -/
theorem boss_turned_away : ∃ s, Run (mailStep plainBackend) (MailAllowed fun _ => some 1) officeStart s ∧
    s.views (js "s",1,.folders) = some () ∧ FailsUntouched plainBackend bossSession 2 2 (.webmail .listFolders) s := by
  have hunlock : Run (mailStep plainBackend) (MailAllowed fun _ => some 1) officeStart _ :=
    .tail (.call bossSession 2 1 (.webmail (.unlock []))) (.refl officeStart) (show _ = _ from rfl) rfl
  have hrun : Run (mailStep plainBackend) (MailAllowed fun _ => some 1) officeStart _ :=
    .tail (.call bossSession 2 1 (.webmail .listFolders)) hunlock (show _ = _ from rfl) rfl
  have hown : bossSession.principal.mailboxId = some 1 := rfl
  have hne : 1 ≠ 2 := by decide
  exact ⟨_,hrun,by decide,(bound_session_confined hrun (fun _ => rfl) hown hown hne 2 (.webmail .listFolders)).mpr fun h => h.1⟩

/-- The same session writes a signature of the clerk. -/
theorem boss_signs_for_clerk : bossSession.principal.mailboxId = some 1 ∧
    ((MailboxOp.run plainBackend bossSession 2 2 (.personalization (.createSignature ⟨js "x",[],[],true⟩ 7))
    officeStart).2.data 2).signatures =
      [⟨7,js "x",[],[],true⟩] ∧
    ¬FailsUntouched plainBackend bossSession 2 2 (.personalization (.createSignature ⟨js "x",[],[],true⟩ 7)) officeStart := by
  refine ⟨rfl,by decide,?_⟩
  rintro ⟨e,h⟩
  exact nomatch (h (officeStart.data 2)).1

end Confined
end JustMail.Webmail
