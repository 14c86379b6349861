import JustMail.Foundation.Runs
import JustMail.Accounts.Invites

/-! Calls of `accept` and `revoke` at the same time. Each statement, and the transaction of
`accept` as a whole, is one step, and time passes between them. -/
namespace JustMail.Accounts
open Foundation Postfix

section Model
variable (crypto : Crypto) (ttl : Nat)

inductive InviteCall where
  | accept (token : JsString) (req : AcceptInviteRequest) (salt : JsString) (draw : Draw)
  | revoke (principal : SessionPrincipal) (orgId inviteId : Nat)

/-- How far a call has come, with what it has read. -/
inductive InvitePhase where
  | started
  -- `accept`
  | loaded (invite : InviteRow)
  | selected (invite : InviteRow) (existing : Option Nat)
  | joined (userId : Nat)
  -- `revoke`
  | permitted
  | deleted (tokenHashes : List JsString)
  | ended

/-- A membership that a call of `accept` has added or changed, and a revocation that has
returned, both under the hash of the invite's token. -/
inductive InviteEvent where
  | changed (tokenHash : JsString) (now expiresAt : Nat)
  | revoked (tokenHash : JsString)
  deriving DecidableEq

def InviteEvent.tokenHash : InviteEvent → JsString
  | .changed tokenHash _ _ | .revoked tokenHash => tokenHash

/-- The next step of a call. -/
def InviteCall.advance (db : AccountDb) (now : Nat) : InviteCall → InvitePhase → AccountDb × InvitePhase × List InviteEvent
  | .accept token _ _ _, .started =>
    match loadPending crypto db now token with
    | .error _ => (db,.ended,[])
    | .ok invite => (db,.loaded invite,[])
  | .accept _ _ _ _, .loaded invite => (db,.selected invite ((db.userByEmail invite.email).map (·.id)),[])
  | .accept _ req salt draw, .selected invite existing =>
    match acceptTx crypto db now invite existing req salt draw.userId with
    | none => (db,.ended,[])
    | some (db',userId) =>
      (db',.joined userId,if db'.members.rows = db.members.rows then [] else [.changed invite.tokenHash now invite.expiresAt])
  | .accept _ _ _ draw, .joined userId => ((createSession crypto ttl db now draw.token userId none).getD db,.ended,[])
  | .revoke principal orgId _, .started =>
    match requireRole db now orgId principal.userId .admin with
    | .error _ => (db,.ended,[])
    | .ok _ => (db,.permitted,[])
  | .revoke _ orgId inviteId, .permitted =>
    let found := db.invites.rows.filter (·.revoked orgId inviteId)
    if found.isEmpty then (db,.ended,[])
    else ({ db with invites := db.invites.deleteWhere (·.revoked orgId inviteId) },.deleted (found.map (·.tokenHash)),[])
  | .revoke _ _ _, .deleted tokenHashes => (db,.ended,tokenHashes.map .revoked)
  | _, _ => (db,.ended,[])

structure InviteState where
  db : AccountDb
  now : Nat
  calls : List (InviteCall × InvitePhase)
  log : List InviteEvent

inductive InviteAction where
  | call (c : InviteCall)
  | advance (i : Nat)
  | wait (seconds : Nat)

def inviteStep (s : InviteState) : InviteAction → Option InviteState
  | .call c => some { s with calls := s.calls ++ [(c,.started)] }
  | .wait seconds => some { s with now := s.now + seconds }
  | .advance i => s.calls[i]?.map fun (c,phase) =>
    let (db,phase',events) := c.advance crypto ttl s.db s.now phase
    { s with db := db, calls := s.calls.set i (c,phase'), log := s.log ++ events }

/-- An invite changes a membership once, in time, and never after a revocation. -/
def WorksOnce (log : List InviteEvent) : Prop :=
  log.Pairwise (fun e e' => ∀ now expiresAt, e' ≠ .changed e.tokenHash now expiresAt) ∧
  ∀ tokenHash now expiresAt, .changed tokenHash now expiresAt ∈ log → now ≤ expiresAt

def StillPending (db : AccountDb) (now : Nat) (tokenHash : JsString) : Prop :=
  ∃ row ∈ db.invites.lookup tokenHash, row.acceptedAt = none ∧ now ≤ row.expiresAt

/-- Nothing is left to change: the account that was found has the role of the invite, or none was
found and the address is taken by now. -/
def NothingToChange (db : AccountDb) (invite : InviteRow) : Option Nat → Prop
  | some userId => db.members.lookup (invite.orgId,userId) = some ⟨invite.orgId,userId,invite.role⟩
  | none => (db.userByEmail invite.email).isSome = true

/-- The transaction of `accept` meets the invite as `loadPending` did. -/
def InvitePhase.MeetsPending (db : AccountDb) (now : Nat) : InvitePhase → Prop
  | .selected invite existing => StillPending db now invite.tokenHash ∨ NothingToChange db invite existing
  | _ => True

def CommitsPending (s : InviteState) : InviteAction → Prop
  | .advance i => ∀ call ∈ s.calls[i]?, call.2.MeetsPending s.db s.now
  | _ => True

end Model

section Rows
variable {crypto : Crypto} {ttl now : Nat} {db db' : AccountDb}

/-- Invites are accepted and deleted, and are otherwise the same. -/
def InvitesClose (db db' : AccountDb) : Prop :=
  ∀ tokenHash row', db'.invites.lookup tokenHash = some row' → ∃ row, db.invites.lookup tokenHash = some row ∧
    row'.id = row.id ∧ row'.expiresAt = row.expiresAt ∧ (row'.acceptedAt = none → row.acceptedAt = none)

theorem invitesClose_of_eq (h : db'.invites = db.invites) : InvitesClose db db' := by
  intro tokenHash row' hrow'
  rw [h] at hrow'
  exact ⟨row',hrow',rfl,rfl,fun hnone => hnone⟩

theorem insertUser_keeps {u : UserRow} (h : db.insertUser u = some db') : db'.invites = db.invites ∧ db'.members = db.members := by
  rw [AccountDb.insertUser] at h
  split at h
  · cases h
    exact ⟨rfl,rfl⟩
  · simp at h

theorem upsertMember_invites {m : MemberRow} (h : db.upsertMember m = some db') : db'.invites = db.invites := by
  rw [AccountDb.upsertMember] at h
  split at h
  · cases h
    rfl
  · simp at h

theorem insertSession_invites {r : SessionRow} (h : db.insertSession r = some db') : db'.invites = db.invites := by
  rw [AccountDb.insertSession] at h
  split at h
  · cases h
    rfl
  · simp at h

theorem loadPending_lookup {token : JsString} {invite : InviteRow} (h : loadPending crypto db now token = .ok invite) :
    db.invites.lookup invite.tokenHash = some invite := by
  rw [loadPending] at h
  split at h
  · simp at h
  · rename_i row hrow
    split at h
    · simp at h
    · split at h
      · simp at h
      · obtain rfl := Except.ok.inj h
        rw [show row.tokenHash = crypto.sha256 token from Table.key_of_lookup hrow]
        exact hrow

/-- What the transaction of `accept` does to invites, and when it leaves the members alone. -/
theorem acceptTx_spec {invite : InviteRow} {existing : Option Nat} {req : AcceptInviteRequest} {salt : JsString} {newId userId : Nat}
    (h : acceptTx crypto db now invite existing req salt newId = some (db',userId)) :
    db'.invites = (markAccepted db now invite.id).invites ∧ (NothingToChange db invite existing → db'.members.rows = db.members.rows) := by
  obtain ⟨⟨mid,found⟩,huser,hmember⟩ := Option.bind_eq_some_iff.mp h
  obtain ⟨mid',hupsert,hdone⟩ := Option.map_eq_some_iff.mp hmember
  cases hdone
  have hmembers := (AccountDb.upsertMember_spec hupsert).2.2.2.2
  have hmarked : ∀ db : AccountDb, db.invites = mid.invites →
    (markAccepted db now invite.id).invites = (markAccepted mid now invite.id).invites := by
    intro db hsame
    rw [markAccepted,markAccepted]
    dsimp only
    rw [hsame]
  have hinvites := hmarked mid' (upsertMember_invites hupsert)
  cases existing with
  | some userId =>
    cases huser
    refine ⟨hinvites,fun hsame => ?_⟩
    change mid'.members.rows = _
    rw [hmembers]
    exact Table.rows_upsert_of_lookup hsame
  | none =>
    obtain ⟨_,hinsert,hpair⟩ := Option.map_eq_some_iff.mp huser
    cases hpair
    refine ⟨hinvites.trans (hmarked db (insertUser_keeps hinsert).1.symm).symm,fun htaken => ?_⟩
    have hfree := (AccountDb.insertUser_spec hinsert).2.1
    simp [NothingToChange,hfree] at htaken

theorem lookup_markAccepted (inviteId : Nat) (tokenHash : JsString) : (markAccepted db now inviteId).invites.lookup tokenHash =
    (db.invites.lookup tokenHash).map fun i => if i.id == inviteId then { i with acceptedAt := some now } else i :=
  Table.lookup_updateWhere db.invites (·.id == inviteId) (fun i => { i with acceptedAt := some now }) (fun _ => rfl) tokenHash

theorem invitesClose_markAccepted (inviteId : Nat) : InvitesClose db (markAccepted db now inviteId) := by
  intro tokenHash row' hrow'
  rw [lookup_markAccepted] at hrow'
  obtain ⟨row,hrow,rfl⟩ := Option.map_eq_some_iff.mp hrow'
  refine ⟨row,hrow,?_⟩
  split
  · exact ⟨rfl,rfl,by simp⟩
  · exact ⟨rfl,rfl,fun hnone => hnone⟩

theorem invitesClose_delete (orgId inviteId : Nat) :
    InvitesClose db { db with invites := db.invites.deleteWhere (·.revoked orgId inviteId) } := by
  intro tokenHash row' hrow'
  rw [Table.lookup_deleteWhere] at hrow'
  exact ⟨row',(Option.filter_eq_some_iff.mp hrow').1,rfl,rfl,fun hnone => hnone⟩

end Rows

section Steps
variable {crypto : Crypto} {ttl now : Nat} {db db' : AccountDb} {phase : InvitePhase}

/-- What a call has read of invites is still so, where they are still there. -/
def InvitePhase.Holds (db : AccountDb) : InvitePhase → Prop
  | .loaded invite | .selected invite _ =>
    ∀ row, db.invites.lookup invite.tokenHash = some row → row.id = invite.id ∧ row.expiresAt = invite.expiresAt
  | .deleted tokenHashes => ∀ tokenHash ∈ tokenHashes, db.invites.lookup tokenHash = none
  | _ => True

theorem InvitePhase.Holds.mono (h : phase.Holds db) (hclose : InvitesClose db db') : phase.Holds db' := by
  have hrow : ∀ invite : InviteRow,
    (∀ row, db.invites.lookup invite.tokenHash = some row → row.id = invite.id ∧ row.expiresAt = invite.expiresAt) →
      ∀ row, db'.invites.lookup invite.tokenHash = some row → row.id = invite.id ∧ row.expiresAt = invite.expiresAt := by
    intro invite h row' hrow'
    obtain ⟨row,hrow,hid,hexpires,-⟩ := hclose _ row' hrow'
    obtain ⟨hid',hexpires'⟩ := h row hrow
    exact ⟨hid.trans hid',hexpires.trans hexpires'⟩
  cases phase with
  | loaded invite => exact hrow invite h
  | selected invite existing => exact hrow invite h
  | deleted tokenHashes =>
    intro tokenHash hmem
    cases hrow' : db'.invites.lookup tokenHash with
    | none => rfl
    | some row' =>
      obtain ⟨row,hrow,-⟩ := hclose tokenHash row' hrow'
      simp [h tokenHash hmem] at hrow
  | _ => trivial

def Closed (db : AccountDb) (tokenHash : JsString) : Prop := ∀ row, db.invites.lookup tokenHash = some row → row.acceptedAt ≠ none

theorem Closed.mono {tokenHash : JsString} (h : Closed db tokenHash) (hclose : InvitesClose db db') : Closed db' tokenHash := by
  intro row' hrow' hnone
  obtain ⟨row,hrow,-,-,hopen⟩ := hclose tokenHash row' hrow'
  exact h row hrow (hopen hnone)

/-- A step closes the invites of its events, and changes a membership for one that was open. -/
structure Advanced (db : AccountDb) (now : Nat) (db' : AccountDb) (phase : InvitePhase) (events : List InviteEvent) : Prop where
  closes : InvitesClose db db'
  holds : phase.Holds db'
  closed : ∀ e ∈ events, Closed db' e.tokenHash
  once : WorksOnce events
  opened : ∀ tokenHash now expiresAt, .changed tokenHash now expiresAt ∈ events → ¬Closed db tokenHash

theorem advanced_quiet (hclose : InvitesClose db db') (hholds : phase.Holds db') : Advanced db now db' phase [] :=
  ⟨hclose,hholds,by simp,⟨.nil,by simp⟩,by simp⟩

theorem advanced_commit {invite : InviteRow} {existing : Option Nat} {req : AcceptInviteRequest} {salt : JsString} {newId userId : Nat}
    (hholds : (InvitePhase.selected invite existing).Holds db)
    (hallowed : StillPending db now invite.tokenHash ∨ NothingToChange db invite existing)
    (h : acceptTx crypto db now invite existing req salt newId = some (db',userId)) :
    Advanced db now db' (.joined userId) (if db'.members.rows = db.members.rows then []
    else [.changed invite.tokenHash now invite.expiresAt]) := by
  obtain ⟨hinvites,hsame⟩ := acceptTx_spec h
  have hclose : InvitesClose db db' := by
    intro tokenHash row' hrow'
    rw [hinvites] at hrow'
    exact invitesClose_markAccepted invite.id tokenHash row' hrow'
  split
  · exact advanced_quiet hclose trivial
  · rename_i hchanged
    rcases hallowed with ⟨row,hrow,hopen,hintime⟩ | hnothing
    · obtain ⟨hid,hexpires⟩ := hholds row hrow
      refine ⟨hclose,trivial,?_,⟨List.pairwise_singleton ..,?_⟩,?_⟩
      · -- the transaction has marked the invite
        intro e he row' hrow'
        obtain rfl := List.mem_singleton.mp he
        rw [InviteEvent.tokenHash,hinvites,lookup_markAccepted,Option.mem_def.mp hrow,Option.map_some,if_pos (by simp [hid])] at hrow'
        rw [← Option.some.inj hrow']
        simp
      · intro tokenHash now' expiresAt he
        obtain ⟨rfl,rfl,rfl⟩ := InviteEvent.changed.inj (List.mem_singleton.mp he)
        rw [← hexpires]
        exact hintime
      · intro tokenHash now' expiresAt he hclosed
        obtain ⟨rfl,-,-⟩ := InviteEvent.changed.inj (List.mem_singleton.mp he)
        exact hclosed row hrow hopen
    · exact absurd (hsame hnothing) hchanged

theorem advanced_revoked {tokenHashes : List JsString} (h : (InvitePhase.deleted tokenHashes).Holds db) :
    Advanced db now db .ended (tokenHashes.map .revoked) := by
  have hnone : ∀ tokenHash now expiresAt, .changed tokenHash now expiresAt ∉ tokenHashes.map InviteEvent.revoked := by simp
  refine ⟨invitesClose_of_eq rfl,trivial,fun e he row hrow => ?_,⟨?_,fun _ _ _ he => absurd he (hnone _ _ _)⟩,
    fun _ _ _ he => absurd he (hnone _ _ _)⟩
  · obtain ⟨tokenHash,hmem,rfl⟩ := List.mem_map.mp he
    simp [InviteEvent.tokenHash,h tokenHash hmem] at hrow
  · refine List.pairwise_of_forall_mem_list fun e _ e' he' now expiresAt heq => ?_
    exact hnone _ _ _ (heq ▸ he')

theorem advanced_step (crypto : Crypto) (ttl : Nat) (c : InviteCall) (hholds : phase.Holds db)
    (hallowed : phase.MeetsPending db now) :
    Advanced db now (c.advance crypto ttl db now phase).1 (c.advance crypto ttl db now phase).2.1
    (c.advance crypto ttl db now phase).2.2 := by
  have hrefl : InvitesClose db db := invitesClose_of_eq rfl
  have hidle : Advanced db now db .ended [] := advanced_quiet hrefl trivial
  cases c with
  | accept token req salt draw =>
    cases phase with
    | started =>
      rw [InviteCall.advance]
      split
      · exact hidle
      · rename_i invite hload
        refine advanced_quiet hrefl fun row hrow => ?_
        rw [loadPending_lookup hload] at hrow
        rw [← Option.some.inj hrow]
        exact ⟨rfl,rfl⟩
    | loaded invite => exact advanced_quiet hrefl hholds
    | selected invite existing =>
      rw [InviteCall.advance]
      split
      · exact hidle
      · rename_i db' userId htx
        exact advanced_commit hholds hallowed htx
    | joined userId =>
      refine advanced_quiet (invitesClose_of_eq ?_) trivial
      rw [InviteCall.advance]
      cases hsession : createSession crypto ttl db now draw.token userId none with
      | none => rfl
      | some db' => exact insertSession_invites hsession
    | permitted => exact hidle
    | deleted tokenHashes => exact hidle
    | ended => exact hidle
  | revoke principal orgId inviteId =>
    cases phase with
    | started =>
      rw [InviteCall.advance]
      split
      · exact hidle
      · exact advanced_quiet hrefl trivial
    | permitted =>
      rw [InviteCall.advance]
      split
      · exact hidle
      · refine advanced_quiet (invitesClose_delete orgId inviteId) fun tokenHash hmem => ?_
        obtain ⟨row,hrow,rfl⟩ := List.mem_map.mp hmem
        obtain ⟨hrow,hrevoked⟩ := List.mem_filter.mp hrow
        rw [Table.lookup_deleteWhere,Table.lookup_of_mem hrow,Option.filter_some,if_neg (by simp [hrevoked])]
    | deleted tokenHashes => exact advanced_revoked hholds
    | loaded invite => exact hidle
    | selected invite existing => exact hidle
    | joined userId => exact hidle
    | ended => exact hidle

end Steps

section Runs
variable {crypto : Crypto} {ttl : Nat} {s t : InviteState}

structure InvitesOrdered (s : InviteState) : Prop where
  holds : ∀ call ∈ s.calls, call.2.Holds s.db
  closed : ∀ e ∈ s.log, Closed s.db e.tokenHash
  once : WorksOnce s.log

theorem WorksOnce.append {log events : List InviteEvent} {db : AccountDb} (hlog : WorksOnce log) (hevents : WorksOnce events)
    (hclosed : ∀ e ∈ log, Closed db e.tokenHash)
    (hopened : ∀ tokenHash now expiresAt, .changed tokenHash now expiresAt ∈ events → ¬Closed db tokenHash) :
    WorksOnce (log ++ events) := by
  refine ⟨List.pairwise_append.mpr ⟨hlog.1,hevents.1,fun e he e' he' now expiresAt heq => ?_⟩,fun tokenHash now expiresAt he => ?_⟩
  · rw [heq] at he'
    exact hopened _ _ _ he' (hclosed e he)
  · rcases List.mem_append.mp he with he | he
    · exact hlog.2 _ _ _ he
    · exact hevents.2 _ _ _ he

theorem invitesOrdered_step {a : InviteAction} (h : InvitesOrdered s) (hallowed : CommitsPending s a)
    (hstep : inviteStep crypto ttl s a = some t) :
    InvitesOrdered t := by
  cases a with
  | call c =>
    cases hstep
    refine ⟨fun call hcall => ?_,h.closed,h.once⟩
    rcases List.mem_append.mp hcall with hcall | hcall
    · exact h.holds call hcall
    · rw [List.mem_singleton.mp hcall]
      trivial
  | wait seconds =>
    cases hstep
    exact ⟨h.holds,h.closed,h.once⟩
  | advance i =>
    obtain ⟨⟨c,phase⟩,hcall,rfl⟩ := Option.map_eq_some_iff.mp hstep
    have hadvanced := advanced_step crypto ttl c (h.holds _ (List.mem_of_getElem? hcall)) (hallowed _ hcall)
    refine ⟨fun call hmem => ?_,fun e he => ?_,h.once.append hadvanced.once h.closed hadvanced.opened⟩
    · rcases List.mem_or_eq_of_mem_set hmem with hmem | rfl
      · exact (h.holds call hmem).mono hadvanced.closes
      · exact hadvanced.holds
    · rcases List.mem_append.mp he with he | he
      · exact (h.closed e he).mono hadvanced.closes
      · exact hadvanced.closed e he

/-- Whatever the order of the steps, an invite works once as long as each transaction of `accept`
still finds it pending, or nothing to change. -/
theorem invite_works_once {db : AccountDb} {now : Nat}
    (hrun : Run (inviteStep crypto ttl) CommitsPending ⟨db,now,[],[]⟩ s) : WorksOnce s.log := by
  have hstart : InvitesOrdered ⟨db,now,[],[]⟩ := ⟨by simp,by simp,⟨.nil,by simp⟩⟩
  exact (hrun.invariant (fun _ _ _ h hallowed hstep => invitesOrdered_step h hallowed hstep) hstart).once

instance (db : AccountDb) (now : Nat) (tokenHash : JsString) : Decidable (StillPending db now tokenHash) :=
  decidable_of_iff ((db.invites.lookup tokenHash).any fun row => row.acceptedAt = none ∧ now ≤ row.expiresAt) (by
    rw [StillPending]
    cases db.invites.lookup tokenHash with
    | none => simp
    | some row => simp)

instance (db : AccountDb) (invite : InviteRow) : (existing : Option Nat) → Decidable (NothingToChange db invite existing)
  | some _ => inferInstanceAs (Decidable (_ = some _))
  | none => inferInstanceAs (Decidable (_ = true))

instance (db : AccountDb) (now : Nat) : (phase : InvitePhase) → Decidable (phase.MeetsPending db now)
  | .selected _ _ => inferInstanceAs (Decidable (_ ∨ _))
  | .started | .loaded _ | .joined _ | .permitted | .deleted _ | .ended => inferInstanceAs (Decidable True)

instance (s : InviteState) : (a : InviteAction) → Decidable (CommitsPending s a)
  | .advance i => inferInstanceAs (Decidable (∀ call ∈ s.calls[i]?, call.2.MeetsPending s.db s.now))
  | .call _ | .wait _ => inferInstanceAs (Decidable True)

/-- An invite for a new address, and nothing under way. -/
def inviteStart : InviteState := ⟨invitedDb "new@e.f",0,[],[]⟩

def acceptNew : InviteCall := .accept (js "jmi_x") chosenPassword [] someDraw

def revokeNew : InviteCall := .revoke adminPrincipal 1 1

/-- One of two calls of `accept` adds the member. -/
theorem second_accept_idle : ∃ s, Run (inviteStep plainCrypto 30) CommitsPending inviteStart s ∧
    s.log = [.changed (js "jmi_x") 7 INVITE_TTL] ∧ WorksOnce s.log := by
  have hactions : (runActions (inviteStep plainCrypto 30) CommitsPending inviteStart
      [.call acceptNew,.call acceptNew,.advance 0,.advance 1,.advance 0,.advance 1,.wait 7,.advance 0,.advance 1]).map (·.log) =
      some [.changed (js "jmi_x") 7 INVITE_TTL] := by decide
  obtain ⟨s,hs,hlog⟩ := Option.map_eq_some_iff.mp hactions
  have hrun := Run.of_actions hs
  exact ⟨s,hrun,hlog,invite_works_once hrun⟩

/-- The invite is revoked between `loadPending` and the transaction. -/
theorem revoked_invite_works : ∃ s, Run (inviteStep plainCrypto 30) (fun _ _ => True) inviteStart s ∧
    s.log = [.revoked (js "jmi_x"),.changed (js "jmi_x") 0 INVITE_TTL] ∧ ¬WorksOnce s.log := by
  have hactions : (runActions (inviteStep plainCrypto 30) (fun _ _ => True) inviteStart
      [.call acceptNew,.call revokeNew,.advance 0,.advance 1,.advance 1,.advance 1,.advance 0,.advance 0]).map (·.log) =
      some [.revoked (js "jmi_x"),.changed (js "jmi_x") 0 INVITE_TTL] := by decide
  obtain ⟨s,hs,hlog⟩ := Option.map_eq_some_iff.mp hactions
  refine ⟨s,.of_actions hs,hlog,fun honce => ?_⟩
  rw [hlog] at honce
  exact List.rel_of_pairwise_cons honce.1 List.mem_cons_self 0 INVITE_TTL rfl

end Runs
end JustMail.Accounts
