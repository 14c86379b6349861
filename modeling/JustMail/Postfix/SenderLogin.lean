import JustMail.Postfix.CatchAll

/-! The `mail_sender_login` view of `migrations/0016_mail_groups.sql` and the check
`reject_sender_login_mismatch` that the submission services make with it. -/
namespace JustMail.Postfix
open Foundation

/-- What stands between the names of one answer. -/
def isOwnerSeparator (c : CodeUnit) : Bool := (js ", \t\r\n").contains c

/-- The columns the view reads besides those of `mail_aliases`. The addresses that
become logins are e-mail addresses, which hold no comma or space. -/
structure SenderDb extends MailDb where
  smtpEnabled : Nat → Bool
  allowMemberSend : Nat → Bool
  destinationUnits : ∀ a ∈ aliases.rows, ∀ e ∈ a.destinations, ∀ c ∈ e.text, isOwnerSeparator c = false
  memberUnits : ∀ gm ∈ members.rows, ∀ c ∈ gm.address.text, isOwnerSeparator c = false

/-- A row of the view. -/
structure SenderEntry where
  sender : JsString
  login : JsString

def mailboxLogins (db : SenderDb) : List SenderEntry :=
  db.mailboxes.rows.filterMap fun m => (db.domains.lookup m.domainId).bind fun d =>
    if m.status = .active ∧ d.status = .active ∧ db.smtpEnabled m.id then
      some ⟨address m.localPart d,address m.localPart d⟩
    else none

def aliasLogins (db : SenderDb) : List SenderEntry :=
  db.aliases.rows.flatMap fun a => match db.domains.lookup a.domainId with
    | none => []
    | some d =>
      if a.enabled ∧ d.status = .active then a.destinations.map fun e => ⟨address a.source d,e.text⟩ else []

def groupLogins (db : SenderDb) : List SenderEntry :=
  db.groups.rows.flatMap fun g => match db.domains.lookup g.domainId with
    | none => []
    | some d =>
      if g.enabled ∧ db.allowMemberSend g.id ∧ d.status = .active then
        (db.members.rows.filter (·.groupId = g.id)).map fun gm => ⟨address g.localPart d,gm.address.text⟩
      else []

def mailSenderLogin (db : SenderDb) : List SenderEntry := mailboxLogins db ++ aliasLogins db ++ groupLogins db

/-- `SELECT login FROM mail_sender_login WHERE sender = '%s'`. -/
def senderLoginQuery (view : List SenderEntry) (key : JsString) : List JsString :=
  (view.filter fun e => citext e.sender = citext key).map (·.login)

/-- The names in all rows of the answer. -/
def owners (view : List SenderEntry) (key : JsString) : List JsString :=
  ((senderLoginQuery view key).flatMap (·.splitOnP isOwnerSeparator)).filter (· ≠ [])

/-- The address without its extension (`recipient_delimiter = +`). -/
def withoutExtension (a : JsString) : Option JsString :=
  (domainKey a).bind fun domain => (cut (unit '+') (a.rdropWhile (· ≠ AT)).dropLast).bind fun (user,_) =>
    if user = [] then none else some (user ++ domain)

/-- The keys under which Postfix looks a sender up: the address, the address without
its extension, `'@domain'`. -/
def senderKeys (a : JsString) : List JsString := a :: ((withoutExtension a).toList ++ (domainKey a).toList)

/-- The owners under the first key that has any. -/
def senderOwners (view : List SenderEntry) (sender : JsString) : List JsString :=
  (((senderKeys sender).map (owners view)).find? (· ≠ [])).getD []

/-- `reject_sender_login_mismatch, permit_sasl_authenticated` for an authenticated
client: a sender without owners is rejected too. -/
def acceptsSubmission (db : SenderDb) (login sender : JsString) : Bool :=
  (senderOwners (mailSenderLogin db) sender).any fun owner => citext owner = citext login

/-- The sender's domain is one of the `domains` rows. -/
def LocalSender (db : SenderDb) (sender : JsString) : Prop :=
  ∃ d ∈ db.domains.rows, ∃ key ∈ domainKey sender, citext key = AT :: d.name.text

section Guard
variable {db : SenderDb} {m : MailboxRow} {d : DomainRow} {e : SenderEntry} {text login sender : JsString}

/-- The mailbox `m` on domain `d` may submit. -/
structure MaySubmit (db : SenderDb) (m : MailboxRow) (d : DomainRow) : Prop where
  active : m.status = .active
  domainActive : d.status = .active
  smtp : db.smtpEnabled m.id = true

/-- If `text` is the address of a local mailbox, then of one that may submit. -/
def Guarded (db : SenderDb) (text : JsString) : Prop :=
  ∀ m ∈ db.mailboxes.rows, ∀ d, db.domains.lookup m.domainId = some d →
    citext text = citext (address m.localPart d) → MaySubmit db m d

theorem mem_mailboxLogins : e ∈ mailboxLogins db ↔
    ∃ m ∈ db.mailboxes.rows, ∃ d, db.domains.lookup m.domainId = some d ∧ MaySubmit db m d ∧
      e = ⟨address m.localPart d,address m.localPart d⟩ := by
  simp only [mailboxLogins,List.mem_filterMap,Option.bind_eq_some_iff,Option.ite_none_right_eq_some,Option.some.injEq]
  constructor
  · rintro ⟨m,hm,d,hd,⟨hactive,hdomain,hsmtp⟩,rfl⟩
    exact ⟨m,hm,d,hd,⟨hactive,hdomain,hsmtp⟩,rfl⟩
  · rintro ⟨m,hm,d,hd,⟨hactive,hdomain,hsmtp⟩,rfl⟩
    exact ⟨m,hm,d,hd,⟨hactive,hdomain,hsmtp⟩,rfl⟩

theorem mem_aliasLogins : e ∈ aliasLogins db ↔
    ∃ a ∈ db.aliases.rows, ∃ d, db.domains.lookup a.domainId = some d ∧ (a.enabled = true ∧ d.status = .active) ∧
      ∃ dest ∈ a.destinations, e = ⟨address a.source d,dest.text⟩ := by
  rw [aliasLogins,List.mem_flatMap]
  refine exists_congr fun a => and_congr_right fun _ => ?_
  cases db.domains.lookup a.domainId with
  | none => simp
  | some d =>
    by_cases hguard : a.enabled = true ∧ d.status = .active
    · simp [hguard,eq_comm (a := e)]
    · simp [hguard]

theorem mem_groupLogins : e ∈ groupLogins db ↔
    ∃ g ∈ db.groups.rows, ∃ d, db.domains.lookup g.domainId = some d ∧
      (g.enabled = true ∧ db.allowMemberSend g.id = true ∧ d.status = .active) ∧
      ∃ gm ∈ db.members.rows, gm.groupId = g.id ∧ e = ⟨address g.localPart d,gm.address.text⟩ := by
  rw [groupLogins,List.mem_flatMap]
  refine exists_congr fun g => and_congr_right fun _ => ?_
  cases db.domains.lookup g.domainId with
  | none => simp
  | some d =>
    by_cases hguard : g.enabled = true ∧ db.allowMemberSend g.id = true ∧ d.status = .active
    · simp [hguard,and_assoc,eq_comm (a := e)]
    · simp [hguard]

theorem MaySubmit.guarded (h : MaySubmit db m d) (hm : m ∈ db.mailboxes.rows)
    (hd : db.domains.lookup m.domainId = some d) : Guarded db (address m.localPart d) := by
  intro m' hm' d' hd' haddress
  rw [citext_address,citext_address] at haddress
  have hserves : Serves db.toMailDb m d := ⟨hm,hd,h.active,h.domainActive⟩
  obtain rfl := hserves.unique hm' hd' haddress.symm
  obtain rfl := Option.some.inj (hd'.symm.trans hd)
  exact h

private theorem separator_classes : ∀ c ∈ js ", \t\r\n", isLocalPartUnit c = false ∧ isHostnameUnit c = false ∧ c ≠ AT := by
  decide

theorem address_units (l : LocalPart) (d : DomainRow) : ∀ c ∈ address l d, isOwnerSeparator c = false := by
  intro c hc
  by_contra hsep
  obtain ⟨hlocal,hname,hat⟩ := separator_classes c (List.contains_iff_mem.mp (Bool.not_eq_false _ ▸ hsep))
  rcases List.mem_append.mp hc with hc | hc
  · exact Bool.false_ne_true (hlocal.symm.trans (l.units c hc))
  · rcases List.mem_cons.mp hc with rfl | hc
    · exact hat rfl
    · exact Bool.false_ne_true (hname.symm.trans (d.name.units c hc))

/-- Logins hold no separator, so that each row of an answer is one owner. -/
theorem login_units (h : e ∈ mailSenderLogin db) : ∀ c ∈ e.login, isOwnerSeparator c = false := by
  rw [mailSenderLogin,List.mem_append,List.mem_append,mem_mailboxLogins,mem_aliasLogins,mem_groupLogins] at h
  rcases h with (⟨m,-,d,-,-,rfl⟩ | ⟨a,ha,d,-,-,dest,hdest,rfl⟩) | ⟨g,-,d,-,-,gm,hgm,-,rfl⟩
  · exact address_units m.localPart d
  · exact db.destinationUnits a ha dest hdest
  · exact db.memberUnits gm hgm

theorem login_of_owner {key owner : JsString} (h : owner ∈ owners (mailSenderLogin db) key) :
    ∃ e ∈ mailSenderLogin db, e.login = owner := by
  simp only [owners,senderLoginQuery,List.mem_filter,List.mem_flatMap,List.mem_map] at h
  obtain ⟨⟨row,⟨e,⟨he,-⟩,rfl⟩,howner⟩,-⟩ := h
  rw [List.splitOnP_eq_singleton (login_units he),List.mem_singleton] at howner
  exact ⟨e,he,howner.symm⟩

theorem login_of_accepts (h : acceptsSubmission db login sender = true) :
    ∃ e ∈ mailSenderLogin db, citext e.login = citext login := by
  obtain ⟨owner,howner,hlogin⟩ := List.any_eq_true.mp h
  rw [senderOwners] at howner
  cases hfound : ((senderKeys sender).map (owners (mailSenderLogin db))).find? (· ≠ []) with
  | none =>
    rw [hfound] at howner
    exact absurd howner List.not_mem_nil
  | some found =>
    obtain ⟨key,-,rfl⟩ := List.mem_map.mp (List.mem_of_find?_eq_some hfound)
    rw [hfound] at howner
    obtain ⟨e,he,rfl⟩ := login_of_owner howner
    exact ⟨e,he,of_decide_eq_true hlogin⟩

/-- Disabled senders cannot submit: a login that is a mailbox is one that may submit,
and no submission of a mailbox with SMTP disabled is accepted. -/
structure DisabledCannotSubmit (db : SenderDb) : Prop where
  logins : ∀ e ∈ mailSenderLogin db, Guarded db e.login
  rejected : ∀ m ∈ db.mailboxes.rows, ∀ d, db.domains.lookup m.domainId = some d → db.smtpEnabled m.id = false →
    ∀ login, citext login = citext (address m.localPart d) → ∀ sender, LocalSender db sender →
      acceptsSubmission db login sender = false

/-- The alias and the group branch of the view, which make no check of the login. -/
structure DestinationsMaySubmit (db : SenderDb) : Prop where
  aliases : ∀ a ∈ db.aliases.rows, a.enabled = true → ∀ d, db.domains.lookup a.domainId = some d → d.status = .active →
    ∀ dest ∈ a.destinations, Guarded db dest.text
  groups : ∀ g ∈ db.groups.rows, g.enabled = true → db.allowMemberSend g.id = true →
    ∀ d, db.domains.lookup g.domainId = some d → d.status = .active →
    ∀ gm ∈ db.members.rows, gm.groupId = g.id → Guarded db gm.address.text

theorem logins_guarded_iff : (∀ e ∈ mailSenderLogin db, Guarded db e.login) ↔ DestinationsMaySubmit db := by
  simp only [mailSenderLogin,List.mem_append,mem_mailboxLogins,mem_aliasLogins,mem_groupLogins]
  constructor
  · intro h
    refine ⟨?_,?_⟩
    · intro a ha henabled d hd hactive dest hdest
      exact h ⟨address a.source d,dest.text⟩ (.inl (.inr ⟨a,ha,d,hd,⟨henabled,hactive⟩,dest,hdest,rfl⟩))
    · intro g hg henabled hsend d hd hactive gm hgm hmember
      exact h ⟨address g.localPart d,gm.address.text⟩
        (.inr ⟨g,hg,d,hd,⟨henabled,hsend,hactive⟩,gm,hgm,hmember,rfl⟩)
  · rintro h e ((⟨m,hm,d,hd,hmay,rfl⟩ | ⟨a,ha,d,hd,⟨henabled,hactive⟩,dest,hdest,rfl⟩) |
      ⟨g,hg,d,hd,⟨henabled,hsend,hactive⟩,gm,hgm,hmember,rfl⟩)
    · exact hmay.guarded hm hd
    · exact h.aliases a ha henabled d hd hactive dest hdest
    · exact h.groups g hg henabled hsend d hd hactive gm hgm hmember

/-- Exactly the databases in which every destination of a usable alias and every member
of a group that lets members send is, if a local mailbox, one that may submit. -/
theorem disabled_cannot_submit_iff (db : SenderDb) : DisabledCannotSubmit db ↔ DestinationsMaySubmit db := by
  constructor
  · intro h
    exact logins_guarded_iff.mp h.logins
  · intro h
    have hlogins := logins_guarded_iff.mpr h
    refine ⟨hlogins,?_⟩
    intro m hm d hd hsmtp login hlogin sender _
    by_contra haccepts
    obtain ⟨e,he,helogin⟩ := login_of_accepts (Bool.not_eq_false _ ▸ haccepts)
    have hmay := hlogins e he m hm d hd (helogin.trans hlogin)
    exact Bool.false_ne_true (hsmtp.symm.trans hmay.smtp)

/-- The mailbox `ann@ex.com` with SMTP disabled is the destination of `info@ex.com`. -/
def disabledDb : SenderDb where
  toMailDb := { exampleDb with
    aliases := ⟨[⟨1,1,⟨js "info",by decide,by decide⟩,[⟨js "ann@ex.com",by decide,by decide⟩],true⟩],by decide⟩
    aliasSource := by decide }
  smtpEnabled id := id ≠ 1
  allowMemberSend _ := false
  destinationUnits := by decide
  memberUnits _ h := absurd h List.not_mem_nil

/-- Through the alias it submits all the same. -/
theorem disabled_mailbox_submits :
    disabledDb.smtpEnabled ann.id = false ∧
    acceptsSubmission disabledDb (js "ann@ex.com") (js "info@ex.com") = true ∧
    ¬DisabledCannotSubmit disabledDb := by
  have haccepts : acceptsSubmission disabledDb (js "ann@ex.com") (js "info@ex.com") = true := by decide +kernel
  refine ⟨rfl,haccepts,fun h => ?_⟩
  have hreject := h.rejected ann List.mem_cons_self exampleDomain rfl rfl (js "ann@ex.com") rfl (js "info@ex.com")
    ⟨exampleDomain,List.mem_cons_self,js "@ex.com",by decide,by decide⟩
  exact Bool.false_ne_true (hreject.symm.trans haccepts)

end Guard
end JustMail.Postfix
