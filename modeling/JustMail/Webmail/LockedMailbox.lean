import JustMail.Webmail.CacheBust

/-! The calls of `WebmailService` that ask for the password of a mailbox, one after the other, over the
credential store and the cache of views. With Redis both are kept there; without it the passwords are
rows of `settings`, and there is no cache. -/
namespace JustMail.Webmail
open Foundation
open WebmailCache (Scope View ViewStore)

section Model

inductive Deployment where
  | redis (credentials : Redis) (views : ViewStore)
  | settings (rows : Settings)

inductive LockableOp where
  | unlock (password : JsString)
  | lock
  | listFolders
  | listMessages (folder : JsString) (limit : Nat)
  | search
  | getMessage
  | getAttachment
  | setFlag
  | move
  | remove
  deriving DecidableEq

/-- Calls that return folders or messages. -/
def LockableOp.isRead : LockableOp → Bool
  | .listFolders | .listMessages _ _ | .search | .getMessage | .getAttachment => true
  | _ => false

/-- The cached view that a call looks for before anything else. -/
def LockableOp.view : LockableOp → Option View
  | .listFolders => some .folders
  | .listMessages folder limit => some (.messageList folder limit)
  | _ => none

/-- Calls that end with `bustMailbox`. -/
def LockableOp.busts : LockableOp → Bool
  | .setFlag | .move | .remove => true
  | _ => false

/-- A call at a whole second. `address` is what `mailboxFor` answers if it grants access. `mail` is what
the mail server has for the call, as JSON text: `none` where it refuses the password or the command. -/
structure LockableCall (ν : Type) where
  time : Nat
  scope : Scope
  op : LockableOp
  address : Option JsString
  mail : Option JsString
  redisNonce : ν
  settingsNonce : ν

inductive LockableError where
  | notAccessible
  | wrongPassword
  | mailboxLocked
  | mailServer
  | redis
  deriving DecidableEq

def LockableError.title : LockableError → Option JsString
  | .wrongPassword => some (js "Wrong mailbox password")
  | .mailboxLocked => some (js "Mailbox locked")
  | .notAccessible | .mailServer | .redis => none

variable {ν : Type} (ttl cacheTtl : Nat) (box : Secretbox ν)

namespace Deployment
variable (d : Deployment)

def credentialCall (c : TimedCall ν) : Deployment × StoreReply :=
  match d with
  | .redis credentials views => ((.redis (redisStep ttl box credentials c).1 views),(redisStep ttl box credentials c).2)
  | .settings rows => (.settings (settingsStep ttl box rows c).1,(settingsStep ttl box rows c).2)

def cachedView (now : Nat) (scope : Scope) (v : View) : Option JsString :=
  match d with
  | .redis _ views => WebmailCache.read views now (scope.viewKey v)
  | .settings _ => none

/-- `setFolders` and `setMessageList`. -/
def setView (now : Nat) (scope : Scope) (v : View) (json : JsString) : Deployment :=
  match d with
  | .redis credentials views =>
    .redis credentials (WebmailCache.write cacheTtl views now scope.sessionId.text scope.mailboxId.text (scope.viewKey v) json)
  | .settings rows => .settings rows

/-- `none` where Redis answers with an error. -/
def bustMailbox (now : Nat) (scope : Scope) : Option Deployment :=
  match d with
  | .redis credentials views => (views.smembers now scope.index).map fun keys => .redis credentials (views.del (keys ++ [scope.index]))
  | .settings rows => some (.settings rows)

end Deployment

namespace LockableCall
variable (c : LockableCall ν) (d : Deployment)

def credential (call : StoreCall) : TimedCall ν := ⟨c.time,call,c.redisNonce,c.settingsNonce⟩

/-- `unlock`; `mail` is the answer to its login. -/
def unlock (password : JsString) : Deployment × Except LockableError (Option JsString) :=
  match c.address with
  | none => (d,.error .notAccessible)
  | some address =>
    if c.mail.isNone then (d,.error .wrongPassword)
    else ((d.credentialCall ttl box (c.credential (.store c.scope.sessionId c.scope.mailboxId address password))).1,.ok none)

/-- What follows the command on the mail server. -/
def finish (json : JsString) : Deployment × Except LockableError (Option JsString) :=
  if c.op.busts then
    match d.bustMailbox c.time c.scope with
    | none => (d,.error .redis)
    | some d' => (d',.ok none)
  else
    match c.op.view with
    | some v => (d.setView cacheTtl c.time c.scope v json,.ok (some json))
    | none => (d,.ok (some json))

/-- `creds`, and `withImap` with what it returns. -/
def withCredentials : Deployment × Except LockableError (Option JsString) :=
  match c.address with
  | none => (d,.error .notAccessible)
  | some _ =>
    match d.credentialCall ttl box (c.credential (.get c.scope.sessionId c.scope.mailboxId)) with
    | (d',.creds (some _)) =>
      match c.mail with
      | none => (d',.error .mailServer)
      | some json => c.finish cacheTtl d' json
    | (d',.creds none) => (d',.error .mailboxLocked)
    | (d',_) => (d',.error .redis)

def run : Deployment × Except LockableError (Option JsString) :=
  match c.op with
  | .unlock password => c.unlock ttl box d password
  | .lock => ((d.credentialCall ttl box (c.credential (.remove c.scope.sessionId c.scope.mailboxId))).1,.ok none)
  | _ =>
    match c.op.view.bind (d.cachedView c.time c.scope) with
    | some json => (d,.ok (some json))
    | none => c.withCredentials ttl cacheTtl box d

end LockableCall

/-- `locked` are the mailboxes for which `lock` has returned and `unlock` has not succeeded since. -/
structure LockableState where
  stores : Deployment
  now : Nat
  locked : List Scope

/-- A call, or what else happens to the stores: a logout, the sweep of expired rows, and a notification
of the mail server that drops the views of a mailbox. -/
inductive LockableAction (ν : Type) where
  | call (c : LockableCall ν)
  | purgeSession (c : LockableCall ν)
  | sweepExpired (c : LockableCall ν)
  | notified (time : Nat) (scope : Scope)

def LockableAction.time : LockableAction ν → Nat
  | .call c | .purgeSession c | .sweepExpired c => c.time
  | .notified time _ => time

def LockableState.lockedAfter (s : LockableState) (c : LockableCall ν) (ok : Bool) : List Scope :=
  match c.op with
  | .lock => if ok then c.scope :: s.locked else s.locked
  | .unlock _ => if ok then s.locked.filter (· != c.scope) else s.locked
  | _ => s.locked

def lockableStep (s : LockableState) : LockableAction ν → Option LockableState
  | .call c =>
    let (stores,result) := c.run ttl cacheTtl box s.stores
    some ⟨stores,c.time,s.lockedAfter c result.isOk⟩
  | .purgeSession c => some
      { s with stores := (s.stores.credentialCall ttl box (c.credential (.purgeSession c.scope.sessionId))).1, now := c.time }
  | .sweepExpired c => some { s with stores := (s.stores.credentialCall ttl box (c.credential .sweepExpired)).1, now := c.time }
  | .notified time scope => (s.stores.bustMailbox time scope).map fun stores => { s with stores := stores, now := time }

/-- Time does not go back. -/
def LaterAction (s : LockableState) (a : LockableAction ν) : Prop := s.now ≤ a.time

instance (s : LockableState) (a : LockableAction ν) : Decidable (LaterAction s a) := inferInstanceAs (Decidable (_ ≤ _))

def LockableState.initial (withRedis : Bool) : LockableState := ⟨if withRedis then .redis .empty .empty else .settings .empty,0,[]⟩

/-- Whoever reads a locked mailbox is turned away. -/
def ShowsNothing (s : LockableState) : Prop :=
  ∀ c : LockableCall ν, c.op.isRead = true → c.scope ∈ s.locked → s.now ≤ c.time → ∃ e, (c.run ttl cacheTtl box s.stores).2 = .error e

end Model

section Credentials
variable {ν : Type} {ttl : Nat} {box : Secretbox ν} {now : Nat} {d : Deployment} {v : Vault}

/-- The credentials of a deployment are those of the abstract store. -/
def Deployment.Holds (box : Secretbox ν) (ttl now : Nat) (v : Vault) : Deployment → Prop
  | .redis credentials _ => RedisHold box ttl now credentials v
  | .settings rows => SettingsHold box now rows v

theorem credentialCall_holds (hpos : 0 < ttl) (h : d.Holds box ttl now v) (c : TimedCall ν) (hle : now ≤ c.time) :
    (d.credentialCall ttl box c).1.Holds box ttl c.time (vaultStep ttl v c).1 ∧
    (d.credentialCall ttl box c).2 = (vaultStep ttl v c).2 := by
  cases d with
  | redis credentials views => exact redis_step hpos h c hle
  | settings rows => exact settings_step hpos h c hle

theorem Deployment.Holds.mono (h : d.Holds box ttl now v) {later : Nat} (hle : now ≤ later) : d.Holds box ttl later v := by
  cases d with
  | redis credentials views => exact RedisHold.mono h hle
  | settings rows => exact SettingsHold.mono h hle

theorem bustMailbox_holds (h : d.Holds box ttl now v) {time : Nat} {scope : Scope} {d' : Deployment}
    (hbust : d.bustMailbox time scope = some d') : d'.Holds box ttl now v := by
  cases d with
  | redis credentials views =>
    obtain ⟨keys,-,rfl⟩ := Option.map_eq_some_iff.mp hbust
    exact h
  | settings rows =>
    cases hbust
    exact h

theorem setView_holds {cacheTtl time : Nat} (h : d.Holds box ttl now v) (scope : Scope) (view : View) (json : JsString) :
    (d.setView cacheTtl time scope view json).Holds box ttl now v := by
  cases d with
  | redis credentials views => exact h
  | settings rows => exact h

/-- A mailbox without a credential has none until one is stored for it. -/
theorem vault_none_stays {s m : UuidText} (h : v s m = none) (c : TimedCall ν)
    (hstore : ∀ address password, c.call ≠ .store s m address password) :
    (vaultStep ttl v c).1 s m = none := by
  obtain ⟨time,call,redisNonce,settingsNonce⟩ := c
  cases call with
  | store s' m' address password =>
    have hne : ¬(s = s' ∧ m = m') := by
      rintro ⟨rfl,rfl⟩
      exact hstore address password rfl
    simp [vaultStep,Vault.set,hne,h]
  | get s' m' =>
    rw [vaultStep]
    dsimp only
    split
    · exact h
    · rename_i cred hcred
      have hne : ¬(s = s' ∧ m = m') := by
        rintro ⟨rfl,rfl⟩
        simp [Vault.find,h] at hcred
      simp [Vault.set,hne,h]
  | remove s' m' =>
    simp only [vaultStep,Vault.set]
    split
    · rfl
    · exact h
  | purgeSession s' =>
    simp only [vaultStep,Vault.forget]
    split
    · rfl
    · exact h
  | sweepExpired => exact h

end Credentials

section Runs
variable {ν : Type} {ttl cacheTtl : Nat} {box : Secretbox ν} {now : Nat} {d : Deployment}
  {v : Vault} {s t : LockableState} {c : LockableCall ν}

/-- A locked mailbox has no credential. -/
def LockInv (box : Secretbox ν) (ttl : Nat) (s : LockableState) : Prop :=
  ∃ v : Vault, s.stores.Holds box ttl s.now v ∧ ∀ scope ∈ s.locked, v scope.sessionId scope.mailboxId = none

theorem finish_holds {d' : Deployment} {json : JsString} {result : Except LockableError (Option JsString)} (h : d.Holds box ttl now v)
    (hfinish : c.finish cacheTtl d json = (d',result)) : d'.Holds box ttl now v := by
  rw [LockableCall.finish] at hfinish
  split at hfinish
  · split at hfinish
    · cases hfinish
      exact h
    · rename_i hbust
      cases hfinish
      exact bustMailbox_holds h hbust
  · split at hfinish
    · cases hfinish
      exact setView_holds h _ _ _
    · cases hfinish
      exact h

/-- What a call can do to the credentials: nothing, look its own one up, store it, or remove it. -/
inductive CredentialsMoved (ttl : Nat) (v : Vault) (c : LockableCall ν) : Bool → Vault → Prop where
  | none (ok : Bool) (hop : c.op ≠ .lock ∧ ∀ password, ok = true → c.op ≠ .unlock password) : CredentialsMoved ttl v c ok v
  | get (ok : Bool) (hop : c.op ≠ .lock ∧ ∀ password, c.op ≠ .unlock password) :
    CredentialsMoved ttl v c ok (vaultStep ttl v (c.credential (.get c.scope.sessionId c.scope.mailboxId))).1
  | store (address password : JsString) (hop : c.op = .unlock password) :
    CredentialsMoved ttl v c true (vaultStep ttl v (c.credential (.store c.scope.sessionId c.scope.mailboxId address password))).1
  | remove (hop : c.op = .lock) :
      CredentialsMoved ttl v c true (vaultStep ttl v (c.credential (.remove c.scope.sessionId c.scope.mailboxId))).1

theorem unlock_moved (hpos : 0 < ttl) (h : d.Holds box ttl now v) (hle : now ≤ c.time)
    {password : JsString} (hop : c.op = .unlock password) :
    ∃ v', (c.unlock ttl box d password).1.Holds box ttl c.time v' ∧ CredentialsMoved ttl v c (c.unlock ttl box d password).2.isOk v' := by
  have hrefused : ∀ password', Except.isOk (.error .notAccessible : Except LockableError (Option JsString)) = true →
    c.op ≠ .unlock password' :=
    fun _ hok => absurd hok Bool.false_ne_true
  rw [LockableCall.unlock]
  split
  · exact ⟨v,h.mono hle,.none _ ⟨by simp [hop],hrefused⟩⟩
  · rename_i address haddress
    split
    · exact ⟨v,h.mono hle,.none _ ⟨by simp [hop],hrefused⟩⟩
    · exact ⟨_,(credentialCall_holds hpos h _ hle).1,.store address password hop⟩

theorem withCredentials_moved (hpos : 0 < ttl) (h : d.Holds box ttl now v) (hle : now ≤ c.time)
    (hop : c.op ≠ .lock ∧ ∀ password, c.op ≠ .unlock password) :
    ∃ v', (c.withCredentials ttl cacheTtl box d).1.Holds box ttl c.time v' ∧
      CredentialsMoved ttl v c (c.withCredentials ttl cacheTtl box d).2.isOk v' := by
  have hget := (credentialCall_holds hpos h (c.credential (.get c.scope.sessionId c.scope.mailboxId)) hle).1
  rw [LockableCall.withCredentials]
  split
  · exact ⟨v,h.mono hle,.none _ ⟨hop.1,fun password _ => hop.2 password⟩⟩
  · split
    · rename_i d' creds hcall
      rw [hcall] at hget
      split
      · exact ⟨_,hget,.get _ hop⟩
      · exact ⟨_,finish_holds hget rfl,.get _ hop⟩
    · rename_i d' hcall
      rw [hcall] at hget
      exact ⟨_,hget,.get _ hop⟩
    · rename_i d' reply hsome hnone hcall
      rw [hcall] at hget
      exact ⟨_,hget,.get _ hop⟩

theorem run_moved (hpos : 0 < ttl) (h : d.Holds box ttl now v) (hle : now ≤ c.time) :
    ∃ v', (c.run ttl cacheTtl box d).1.Holds box ttl c.time v' ∧ CredentialsMoved ttl v c (c.run ttl cacheTtl box d).2.isOk v' := by
  rw [LockableCall.run]
  split
  · rename_i password hop
    exact unlock_moved hpos h hle hop
  · rename_i hop
    exact ⟨_,(credentialCall_holds hpos h _ hle).1,.remove hop⟩
  · rename_i hunlock hlock
    split
    · exact ⟨v,h.mono hle,.none _ ⟨hlock,fun password _ => hunlock password⟩⟩
    · exact withCredentials_moved hpos h hle ⟨hlock,hunlock⟩

/-- Calls that are no successful unlock leave a locked mailbox without a credential. -/
theorem lockedAfter_none {ok : Bool} {v' : Vault} (hmoved : CredentialsMoved ttl v c ok v')
    (h : ∀ scope ∈ s.locked, v scope.sessionId scope.mailboxId = none) :
    ∀ scope ∈ s.lockedAfter c ok, v' scope.sessionId scope.mailboxId = none := by
  intro scope hscope
  rw [LockableState.lockedAfter] at hscope
  cases hmoved with
  | none ok hop =>
    refine h scope ?_
    split at hscope
    · exact absurd ‹_› hop.1
    · split at hscope
      · exact (List.mem_filter.mp hscope).1
      · exact hscope
    · exact hscope
  | get ok hop =>
    split at hscope
    · exact absurd ‹_› hop.1
    · exact absurd ‹_› (hop.2 _)
    · exact vault_none_stays (h scope hscope) _ (by simp [LockableCall.credential])
  | store address password hop =>
    simp only [hop,if_true,List.mem_filter,bne_iff_ne] at hscope
    refine vault_none_stays (h scope hscope.1) _ fun address' password' hcall => hscope.2 ?_
    obtain ⟨hs,hm,-,-⟩ := StoreCall.store.inj hcall
    cases scope
    cases hscope' : c.scope
    simp_all
  | remove hop =>
    simp only [hop,if_true,List.mem_cons] at hscope
    rcases hscope with rfl | hscope
    · simp [LockableCall.credential,vaultStep,Vault.set]
    · exact vault_none_stays (h scope hscope) _ (by simp [LockableCall.credential])

theorem lockInv_step (hpos : 0 < ttl) {a : LockableAction ν} (h : LockInv box ttl s) (hlater : LaterAction s a)
    (hstep : lockableStep ttl cacheTtl box s a = some t) : LockInv box ttl t := by
  obtain ⟨v,hholds,hnone⟩ := h
  cases a with
  | call c =>
    cases hstep
    obtain ⟨v',hholds',hmoved⟩ := run_moved hpos hholds hlater
    exact ⟨v',hholds',lockedAfter_none hmoved hnone⟩
  | purgeSession c =>
    cases hstep
    have hcall := (credentialCall_holds hpos hholds (c.credential (.purgeSession c.scope.sessionId)) hlater).1
    exact ⟨_,hcall,fun scope hscope => vault_none_stays (hnone scope hscope) _ (by simp [LockableCall.credential])⟩
  | sweepExpired c =>
    cases hstep
    have hcall := (credentialCall_holds hpos hholds (c.credential .sweepExpired) hlater).1
    exact ⟨_,hcall,fun scope hscope => vault_none_stays (hnone scope hscope) _ (by simp [LockableCall.credential])⟩
  | notified time scope =>
    obtain ⟨stores,hbust,rfl⟩ := Option.map_eq_some_iff.mp hstep
    exact ⟨v,(bustMailbox_holds hholds hbust).mono hlater,hnone⟩

theorem lockInv_initial (withRedis : Bool) : LockInv box ttl (.initial withRedis) := by
  refine ⟨fun _ _ => none,?_,by simp [LockableState.initial]⟩
  cases withRedis with
  | true => exact redisHold_empty
  | false => exact settingsHold_empty

/-- A read asks for the password unless there is a view for it. -/
theorem run_read (hread : c.op.isRead = true) : c.run ttl cacheTtl box d = match c.op.view.bind (d.cachedView c.time c.scope) with
    | some json => (d,.ok (some json))
    | none => c.withCredentials ttl cacheTtl box d := by
  rw [LockableCall.run]
  split
  · rename_i hop
    simp [hop,LockableOp.isRead] at hread
  · rename_i hop
    simp [hop,LockableOp.isRead] at hread
  · rfl

/-- Without a credential nothing is asked of the mail server. -/
theorem withCredentials_refused (hpos : 0 < ttl) (h : d.Holds box ttl now v) (hle : now ≤ c.time)
    (hnone : v c.scope.sessionId c.scope.mailboxId = none) : ∃ e, (c.withCredentials ttl cacheTtl box d).2 = .error e := by
  have hreply := (credentialCall_holds hpos h (c.credential (.get c.scope.sessionId c.scope.mailboxId)) hle).2
  have hcreds : (vaultStep ttl v (c.credential (.get c.scope.sessionId c.scope.mailboxId))).2 = .creds none := by
    simp [vaultStep,LockableCall.credential,Vault.find,hnone]
  rw [hcreds] at hreply
  rw [LockableCall.withCredentials]
  split
  · exact ⟨_,rfl⟩
  · split
    · rename_i hcall
      simp [hcall] at hreply
    · exact ⟨_,rfl⟩
    · exact ⟨_,rfl⟩

/-- In every run, whoever reads a locked mailbox is turned away exactly where no view is cached for the call. -/
theorem locked_shows_nothing (hpos : 0 < ttl) {withRedis : Bool}
    (hrun : Run (lockableStep ttl cacheTtl box) LaterAction (.initial withRedis) s) (hread : c.op.isRead = true)
    (hlocked : c.scope ∈ s.locked) (hle : s.now ≤ c.time) :
    (∃ e, (c.run ttl cacheTtl box s.stores).2 = .error e) ↔ c.op.view.bind (s.stores.cachedView c.time c.scope) = none := by
  have hinv : LockInv box ttl s :=
    hrun.invariant (fun _ _ _ h hlater hstep => lockInv_step hpos h hlater hstep) (lockInv_initial withRedis)
  obtain ⟨v,hholds,hnone⟩ := hinv
  rw [run_read hread]
  cases hview : c.op.view.bind (s.stores.cachedView c.time c.scope) with
  | some json => simp
  | none => simpa using withCredentials_refused hpos hholds hle (hnone c.scope hlocked)

/-- A session and its mailbox, with the mail server at hand. -/
def sampleCall (time : Nat) (op : LockableOp) : LockableCall UInt8 where
  time := time
  scope := ⟨sampleId,sampleId⟩
  op := op
  address := some (js "a@ex.com")
  mail := some (js "[]")
  redisNonce := 0
  settingsNonce := 1

/-- Twenty seconds after it was read the folder list of a locked mailbox is no longer shown. -/
theorem expired_view_refused : ∃ s, Run (lockableStep 3600 20 sampleBox) LaterAction (.initial true) s ∧
    ∃ e, ((sampleCall 25 .listFolders).run 3600 20 sampleBox s.stores).2 = .error e := by
  have hactions : ((runActions (lockableStep 3600 20 sampleBox) LaterAction (.initial true)
      [.call (sampleCall 0 (.unlock (js "pw"))),.call (sampleCall 5 .listFolders),.call (sampleCall 6 .lock)]).map
        fun s => (s.locked,s.now,s.stores.cachedView 25 ⟨sampleId,sampleId⟩ .folders)) =
          some ([⟨sampleId,sampleId⟩],6,none) := by decide +kernel
  obtain ⟨s,hs,hends⟩ := Option.map_eq_some_iff.mp hactions
  obtain ⟨hlocked,hrest⟩ := Prod.mk.inj hends
  obtain ⟨hnow,hview⟩ := Prod.mk.inj hrest
  have hrun := Run.of_actions hs
  refine ⟨s,hrun,(locked_shows_nothing (by decide) hrun rfl ?_ ?_).mpr hview⟩
  · simp [hlocked,sampleCall]
  · simp [hnow,sampleCall]

/-- Before that it is. -/
theorem cached_view_shown : ∃ s, Run (lockableStep 3600 20 sampleBox) LaterAction (.initial true) s ∧
    ¬ShowsNothing 3600 20 sampleBox s := by
  have hactions : ((runActions (lockableStep 3600 20 sampleBox) LaterAction (.initial true)
      [.call (sampleCall 0 (.unlock (js "pw"))),.call (sampleCall 1 .listFolders),.call (sampleCall 2 .lock)]).map
        fun s => (s.locked,s.now,((sampleCall 3 .listFolders).run 3600 20 sampleBox s.stores).2)) =
          some ([⟨sampleId,sampleId⟩],2,.ok (some (js "[]"))) := by decide +kernel
  obtain ⟨s,hs,hends⟩ := Option.map_eq_some_iff.mp hactions
  obtain ⟨hlocked,hrest⟩ := Prod.mk.inj hends
  obtain ⟨hnow,hresult⟩ := Prod.mk.inj hrest
  refine ⟨s,Run.of_actions hs,fun hnothing => ?_⟩
  obtain ⟨e,he⟩ := hnothing (sampleCall 3 .listFolders) rfl (by simp [hlocked,sampleCall]) (by simp [hnow,sampleCall])
  simp [hresult] at he

end Runs
section History
variable {ν : Type} {ttl cacheTtl : Nat} {box : Secretbox ν} {now : Nat} {d d' : Deployment} {s t : LockableState} {r r' : ViewStore}
  {scope : Scope} {v : View} {caches : Scope → View → Prop} {busts : Scope → Prop}

/-- The call finds no live view and caches its result. -/
def Caches (ttl cacheTtl : Nat) (box : Secretbox ν) (s : LockableState) (a : LockableAction ν) (scope : Scope) (v : View) : Prop :=
  ∃ c, a = .call c ∧ c.scope = scope ∧ c.op.view = some v ∧ s.stores.cachedView c.time scope v = none ∧
    (c.run ttl cacheTtl box s.stores).2.isOk = true

/-- A bust of the mailbox that has come to its end. -/
def Busts (ttl cacheTtl : Nat) (box : Secretbox ν) (s : LockableState) (a : LockableAction ν) (scope : Scope) : Prop :=
  (∃ time, a = .notified time scope) ∨
    ∃ c, a = .call c ∧ c.scope = scope ∧ c.op.busts = true ∧ (c.run ttl cacheTtl box s.stores).2.isOk = true

/-- A call of the run has cached the view at the time, and the mailbox has not been busted since. -/
inductive CachedSince (ttl cacheTtl : Nat) (box : Secretbox ν) (start : LockableState) (scope : Scope) (v : View) :
    Nat → LockableState → Prop where
  | cached {s t : LockableState} {a : LockableAction ν} : Run (lockableStep ttl cacheTtl box) LaterAction start s → LaterAction s a →
      Caches ttl cacheTtl box s a scope v → lockableStep ttl cacheTtl box s a = some t →
        CachedSince ttl cacheTtl box start scope v a.time t
  | kept {s t : LockableState} {a : LockableAction ν} {time : Nat} : CachedSince ttl cacheTtl box start scope v time s → LaterAction s a →
      ¬Busts ttl cacheTtl box s a scope → lockableStep ttl cacheTtl box s a = some t → CachedSince ttl cacheTtl box start scope v time t

def Deployment.views : Deployment → Option ViewStore
  | .redis _ views => some views
  | .settings _ => none

theorem cachedView_eq (d : Deployment) (now : Nat) (scope : Scope) (v : View) :
    d.cachedView now scope v = d.views.bind fun r => WebmailCache.read r now (scope.viewKey v) := by
  cases d <;> rfl

theorem views_credentialCall (c : TimedCall ν) : (d.credentialCall ttl box c).1.views = d.views := by
  cases d <;> rfl

/-- What a step leaves of the views: those it has cached, which last for the time to live, and what was there of
mailboxes that it has not busted. -/
structure ViewsMoved (cacheTtl now : Nat) (caches : Scope → View → Prop) (busts : Scope → Prop) (r r' : ViewStore) : Prop where
  indexed : WebmailCache.Indexed cacheTtl r' now
  read : ∀ later scope v raw, now ≤ later → WebmailCache.read r' later (scope.viewKey v) = some raw →
    (caches scope v ∧ later < now + cacheTtl) ∨ (¬busts scope ∧ WebmailCache.read r later (scope.viewKey v) = some raw)

theorem ViewsMoved.none (h : WebmailCache.Indexed cacheTtl r now) (hbusts : ∀ scope, ¬busts scope) :
    ViewsMoved cacheTtl now caches busts r r :=
  ⟨h,fun _ scope _ _ _ hread => .inr ⟨hbusts scope,hread⟩⟩

theorem read_eq_of_find {key : JsString} {later : Nat} (h : r'.find later key = r.find later key) :
    WebmailCache.read r' later key = WebmailCache.read r later key := by
  rw [WebmailCache.read,Keyspace.get,h]
  rfl

theorem ViewsMoved.write (hpos : 0 < cacheTtl) (h : WebmailCache.Indexed cacheTtl r now) {json : JsString} (hcaches : caches scope v)
    (hbusts : ∀ scope, ¬busts scope) :
    ViewsMoved cacheTtl now caches busts r
    (WebmailCache.write cacheTtl r now scope.sessionId.text scope.mailboxId.text (scope.viewKey v) json) := by
  refine ⟨h.write hpos scope v json,fun later scope' v' raw hle hread => ?_⟩
  obtain ⟨members,-,-,-,hfind⟩ := WebmailCache.find_write hpos h scope v json
  have hlater := Keyspace.find_later (WebmailCache.write cacheTtl r now scope.sessionId.text scope.mailboxId.text (scope.viewKey v) json)
    hle (scope'.viewKey v')
  rw [hfind,if_neg WebmailCache.viewKey_ne_index] at hlater
  by_cases hsame : scope'.viewKey v' = scope.viewKey v
  · obtain ⟨rfl,rfl⟩ := WebmailCache.viewKey_inj.mp hsame
    rw [if_pos rfl] at hlater
    refine .inl ⟨hcaches,?_⟩
    by_contra hexpired
    refine WebmailCache.find_of_read hread ?_
    rw [hlater]
    simp [Option.filter,Entry.alive,hexpired]
  · rw [if_neg hsame,← r.find_later hle] at hlater
    exact .inr ⟨hbusts scope',(read_eq_of_find hlater).symm.trans hread⟩

theorem ViewsMoved.del (h : WebmailCache.Indexed cacheTtl r now) {keys : List JsString} (hkeys : r.smembers now scope.index = some keys)
    (hbusts : ∀ other, busts other → other = scope) : ViewsMoved cacheTtl now caches busts r (r.del (keys ++ [scope.index])) := by
  obtain ⟨members,hmembers,hviews,hall⟩ := h.smembers scope
  obtain rfl := Option.some.inj (hkeys.symm.trans hmembers)
  refine ⟨h.del hviews hall,fun later scope' v' raw hle hread => .inr ?_⟩
  have hout : scope'.viewKey v' ∉ keys ++ [scope.index] := by
    intro hmem
    exact WebmailCache.find_of_read hread (by rw [Keyspace.find_del,if_pos hmem])
  have hkept : WebmailCache.read r later (scope'.viewKey v') = some raw := by
    rw [← hread]
    exact (read_eq_of_find (by rw [Keyspace.find_del,if_neg hout])).symm
  refine ⟨fun hbusted => ?_,hkept⟩
  obtain rfl := hbusts scope' hbusted
  refine hout (List.mem_append_left _ (hall v' fun hnone => ?_))
  exact WebmailCache.find_of_read hkept (by rw [r.find_later hle,hnone]; rfl)

/-- The same of a deployment, which has no views without Redis. -/
def CacheMoved (cacheTtl now : Nat) (caches : Scope → View → Prop) (busts : Scope → Prop) (d d' : Deployment) : Prop :=
  ∀ r' ∈ d'.views, ∃ r ∈ d.views, ViewsMoved cacheTtl now caches busts r r'

theorem CacheMoved.same (h : ∀ r ∈ d.views, WebmailCache.Indexed cacheTtl r now) (hviews : d'.views = d.views)
    (hbusts : ∀ scope, ¬busts scope) :
    CacheMoved cacheTtl now caches busts d d' :=
  fun r hr => ⟨r,hviews ▸ hr,.none (h r (hviews ▸ hr)) hbusts⟩

section Calls
variable {c : LockableCall ν} {result : Except LockableError (Option JsString)}

theorem finish_views {json : JsString} (hpos : 0 < cacheTtl) (h : ∀ r ∈ d.views, WebmailCache.Indexed cacheTtl r c.time)
    (hfinish : c.finish cacheTtl d json = (d',result)) (hcaches : ∀ v, c.op.view = some v → result.isOk = true → caches c.scope v)
    (hbusts : ∀ other, busts other → other = c.scope ∧ c.op.busts = true ∧ result.isOk = true) :
    CacheMoved cacheTtl c.time caches busts d d' := by
  rw [LockableCall.finish] at hfinish
  split at hfinish
  · split at hfinish
    · cases hfinish
      exact .same h rfl fun other hbusted => absurd (hbusts other hbusted).2.2 Bool.false_ne_true
    · rename_i hbust
      cases hfinish
      cases d with
      | settings rows =>
        cases hbust
        exact nofun
      | redis credentials views =>
        obtain ⟨keys,hkeys,rfl⟩ := Option.map_eq_some_iff.mp hbust
        rintro r' ⟨⟩
        exact ⟨views,rfl,.del (h views rfl) hkeys fun other hbusted => (hbusts other hbusted).1⟩
  · rename_i hno
    have hnone : ∀ other, ¬busts other := fun other hbusted => hno (hbusts other hbusted).2.1
    split at hfinish
    · rename_i v hview
      cases hfinish
      cases d with
      | settings rows => exact nofun
      | redis credentials views =>
        rintro r' ⟨⟩
        exact ⟨views,rfl,.write hpos (h views rfl) (hcaches v hview rfl) hnone⟩
    · cases hfinish
      exact .same h rfl hnone

theorem withCredentials_views (hpos : 0 < cacheTtl) (h : ∀ r ∈ d.views, WebmailCache.Indexed cacheTtl r c.time)
    (hcall : c.withCredentials ttl cacheTtl box d = (d',result))
    (hcaches : ∀ v, c.op.view = some v → result.isOk = true → caches c.scope v)
    (hbusts : ∀ other, busts other → other = c.scope ∧ c.op.busts = true ∧ result.isOk = true) :
    CacheMoved cacheTtl c.time caches busts d d' := by
  have hget : (d.credentialCall ttl box (c.credential (.get c.scope.sessionId c.scope.mailboxId))).1.views = d.views :=
    views_credentialCall _
  have hfailed (e : LockableError) (he : result = .error e) (other : Scope) : ¬busts other := by
    intro hbusted
    have hok := (hbusts other hbusted).2.2
    rw [he] at hok
    exact absurd hok Bool.false_ne_true
  rw [LockableCall.withCredentials] at hcall
  split at hcall
  · cases hcall
    exact .same h rfl (hfailed _ rfl)
  · split at hcall
    · rename_i heq
      rw [heq] at hget
      split at hcall
      · cases hcall
        exact .same h hget (hfailed _ rfl)
      · intro r' hr'
        obtain ⟨r,hr,hmoved⟩ := finish_views hpos (hget ▸ h) hcall hcaches hbusts r' hr'
        exact ⟨r,hget ▸ hr,hmoved⟩
    · rename_i heq
      rw [heq] at hget
      cases hcall
      exact .same h hget (hfailed _ rfl)
    · rename_i heq
      rw [heq] at hget
      cases hcall
      exact .same h hget (hfailed _ rfl)

theorem run_views (hpos : 0 < cacheTtl) (h : ∀ r ∈ s.stores.views, WebmailCache.Indexed cacheTtl r c.time) :
    CacheMoved cacheTtl c.time (Caches ttl cacheTtl box s (.call c)) (Busts ttl cacheTtl box s (.call c)) s.stores
      (c.run ttl cacheTtl box s.stores).1 := by
  have hbusts (other : Scope) (hbusted : Busts ttl cacheTtl box s (.call c) other) :
      other = c.scope ∧ c.op.busts = true ∧ (c.run ttl cacheTtl box s.stores).2.isOk = true := by
    rcases hbusted with ⟨_,hcall⟩ | ⟨_,hcall,hscope,hop,hok⟩
    · cases hcall
    · cases hcall
      exact ⟨hscope.symm,hop,hok⟩
  have hquiet (hop : c.op.busts = false) (other : Scope) : ¬Busts ttl cacheTtl box s (.call c) other := by
    intro hbusted
    simpa [hop] using (hbusts other hbusted).2.1
  cases hrun : c.run ttl cacheTtl box s.stores with
  | mk d' result =>
    have hresult : result = (c.run ttl cacheTtl box s.stores).2 := by rw [hrun]
    rw [LockableCall.run] at hrun
    split at hrun
    · rename_i password hop
      refine .same h ?_ (hquiet (by rw [hop]; rfl))
      rw [show d' = _ from (congrArg Prod.fst hrun).symm,LockableCall.unlock]
      split
      · rfl
      · split
        · rfl
        · exact views_credentialCall _
    · rename_i hop
      cases hrun
      exact .same h (views_credentialCall _) (hquiet (by rw [hop]; rfl))
    · split at hrun
      · rename_i json hview
        cases hrun
        obtain ⟨v,hv,-⟩ := Option.bind_eq_some_iff.mp hview
        refine .same h rfl (hquiet ?_)
        cases hop : c.op <;> simp [hop,LockableOp.view] at hv <;> rfl
      · rename_i hnone
        refine withCredentials_views hpos h hrun (fun v hv hok => ⟨c,rfl,rfl,hv,?_,hresult ▸ hok⟩) (hresult ▸ hbusts)
        simpa [hv] using hnone

end Calls

theorem step_views (hpos : 0 < cacheTtl) {a : LockableAction ν} (h : ∀ r ∈ s.stores.views, WebmailCache.Indexed cacheTtl r s.now)
    (hlater : LaterAction s a) (hstep : lockableStep ttl cacheTtl box s a = some t) :
    t.now = a.time ∧ CacheMoved cacheTtl a.time (Caches ttl cacheTtl box s a) (Busts ttl cacheTtl box s a) s.stores t.stores := by
  have hindexed : ∀ r ∈ s.stores.views, WebmailCache.Indexed cacheTtl r a.time := fun r hr => (h r hr).wait hlater
  cases a with
  | call c =>
    cases hstep
    exact ⟨rfl,run_views hpos hindexed⟩
  | purgeSession c =>
    cases hstep
    refine ⟨rfl,.same hindexed (views_credentialCall _) ?_⟩
    rintro scope (⟨_,hcall⟩ | ⟨_,hcall,-⟩) <;> cases hcall
  | sweepExpired c =>
    cases hstep
    refine ⟨rfl,.same hindexed (views_credentialCall _) ?_⟩
    rintro scope (⟨_,hcall⟩ | ⟨_,hcall,-⟩) <;> cases hcall
  | notified time scope =>
    obtain ⟨stores,hbust,rfl⟩ := Option.map_eq_some_iff.mp hstep
    refine ⟨rfl,?_⟩
    cases hstores : s.stores with
    | settings rows =>
      rw [hstores] at hbust
      cases hbust
      exact nofun
    | redis credentials views =>
      rw [hstores] at hbust hindexed
      obtain ⟨keys,hkeys,rfl⟩ := Option.map_eq_some_iff.mp hbust
      rintro r' ⟨⟩
      refine ⟨views,rfl,.del (hindexed views rfl) hkeys ?_⟩
      rintro other (⟨_,hcall⟩ | ⟨_,hcall,-⟩) <;> cases hcall
      rfl

/-- The views that can be read later have been cached by a call of the run, within the time to live and with no bust since. -/
structure ViewsInv (ttl cacheTtl : Nat) (box : Secretbox ν) (start s : LockableState) : Prop where
  indexed : ∀ r ∈ s.stores.views, WebmailCache.Indexed cacheTtl r s.now
  cached : ∀ r ∈ s.stores.views, ∀ later scope v raw, s.now ≤ later → WebmailCache.read r later (scope.viewKey v) = some raw →
    ∃ time, CachedSince ttl cacheTtl box start scope v time s ∧ later < time + cacheTtl

theorem viewsInv_step (hpos : 0 < cacheTtl) {start : LockableState} {a : LockableAction ν}
    (hrun : Run (lockableStep ttl cacheTtl box) LaterAction start s) (h : ViewsInv ttl cacheTtl box start s) (hlater : LaterAction s a)
    (hstep : lockableStep ttl cacheTtl box s a = some t) : ViewsInv ttl cacheTtl box start t := by
  obtain ⟨hnow,hmoved⟩ := step_views hpos h.indexed hlater hstep
  constructor
  · intro r' hr'
    obtain ⟨r,hr,hmove⟩ := hmoved r' hr'
    exact hnow ▸ hmove.indexed
  · intro r' hr' later scope v raw hle hread
    obtain ⟨r,hr,hmove⟩ := hmoved r' hr'
    rcases hmove.read later scope v raw (hnow ▸ hle) hread with ⟨hcaches,hlive⟩ | ⟨hkept,hold⟩
    · exact ⟨a.time,.cached hrun hlater hcaches hstep,hlive⟩
    · obtain ⟨time,hsince,hlive⟩ := h.cached r hr later scope v raw (hlater.trans (hnow ▸ hle)) hold
      exact ⟨time,.kept hsince hlater hkept hstep,hlive⟩

/-- A live view is one that a call of the run has cached within the time to live, with no bust of the mailbox since. -/
theorem cachedSince_of_view (hpos : 0 < cacheTtl) {withRedis : Bool} {json : JsString}
    (hrun : Run (lockableStep ttl cacheTtl box) LaterAction (.initial withRedis) s) (hle : s.now ≤ now)
    (hview : s.stores.cachedView now scope v = some json) :
    ∃ time, CachedSince ttl cacheTtl box (.initial withRedis) scope v time s ∧ now < time + cacheTtl := by
  have hinv : ViewsInv ttl cacheTtl box (.initial withRedis) s := by
    clear hle hview
    induction hrun with
    | refl =>
      cases withRedis with
      | true =>
        refine ⟨?_,?_⟩
        · rintro r ⟨⟩
          exact WebmailCache.indexed_empty
        · rintro r ⟨⟩ later scope v raw - hread
          exact absurd hread nofun
      | false => exact ⟨nofun,nofun⟩
    | tail a hrun hlater hstep ih => exact viewsInv_step hpos hrun ih hlater hstep
  rw [cachedView_eq] at hview
  obtain ⟨r,hr,hread⟩ := Option.bind_eq_some_iff.mp hview
  exact hinv.cached r hr now scope v json hle hread

end History
end JustMail.Webmail
