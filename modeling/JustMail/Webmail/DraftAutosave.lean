import JustMail.Foundation.KeyedTable
import JustMail.Foundation.Runs

/-! The composer that saves its draft into `\Drafts` while the user types, with `saveDraft` and `discardDraft` of the API. Their
calls may run at the same time: each API process has a connection of its own to the mail server. -/
namespace JustMail.Webmail
open Foundation
variable {δ : Type}

section Folder

structure DraftMessage (δ : Type) where
  uid : Nat
  content : δ
  deriving DecidableEq

/-- The folder `\Drafts`, with the UID that its next message gets. -/
structure DraftFolder (δ : Type) where
  messages : Table fun m : DraftMessage δ => m.uid
  uidNext : Nat
  below : ∀ m ∈ messages.rows, m.uid < uidNext

def DraftFolder.append (folder : DraftFolder δ) (content : δ) : DraftFolder δ where
  messages := folder.messages.insert ⟨folder.uidNext,content⟩
    (Table.lookup_eq_none.mpr fun m hm => Nat.ne_of_lt (folder.below m hm))
  uidNext := folder.uidNext + 1
  below m hm := by
    rcases List.mem_append.mp hm with hm | hm
    · exact Nat.lt_succ_of_lt (folder.below m hm)
    · rw [List.mem_singleton.mp hm]
      exact Nat.lt_succ_self _

/-- `messageDelete`, which does nothing where there is no such message. -/
def DraftFolder.delete (folder : DraftFolder δ) (uid : Nat) : DraftFolder δ where
  messages := folder.messages.deleteWhere (·.uid = uid)
  uidNext := folder.uidNext
  below m hm := folder.below m (List.mem_of_mem_filter hm)

variable {folder : DraftFolder δ} {content : δ} {uid : Nat} {m : DraftMessage δ}

@[simp] theorem DraftFolder.mem_append : m ∈ (folder.append content).messages.rows ↔
    m ∈ folder.messages.rows ∨ m = ⟨folder.uidNext,content⟩ := by
  simp [append,Table.insert]

@[simp] theorem DraftFolder.mem_delete : m ∈ (folder.delete uid).messages.rows ↔ m ∈ folder.messages.rows ∧ m.uid ≠ uid := by
  simp [delete,Table.deleteWhere]

end Folder

/-- How an access of the mail server or the cache ends: as asked; with an answer that lacks what it is asked for (the folder, or the
UID of a message, which a server without UIDPLUS does not tell); carried out, but the connection breaks before the answer; refused;
on a connection that is not logged in, where `append` gives false and any other call throws. -/
inductive MailOutcome where
  | done
  | lacking
  | broken
  | refused
  | offline
  deriving DecidableEq

/-- Where a call of `saveDraft` is. From the append on the stage has the UID of the message that it has put into the folder, and
whether the mail server has told it. -/
inductive SaveStage where
  | findDrafts
  | append
  | delete (uid : Nat) (told : Bool)
  | bust (uid : Option Nat) (told : Bool)
  | answered (uid : Option Nat) (told : Bool)
  | failed (uid : Option Nat)
  deriving DecidableEq

def SaveStage.stored : SaveStage → Option Nat
  | .findDrafts | .append => none
  | .delete uid _ => some uid
  | .bust uid _ | .answered uid _ | .failed uid => uid

structure SaveCall (δ : Type) where
  content : δ
  replaceUid : Option Nat
  stage : SaveStage

namespace SaveCall

def appended (call : SaveCall δ) (uid : Nat) (told : Bool) : SaveCall δ :=
  { call with stage := if call.replaceUid.isSome then .delete uid told else .bust (some uid) told }

/-- The next access of the call. A failing `messageDelete` is caught, a failing `getMailboxLock` is not. -/
def access (folder : DraftFolder δ) (call : SaveCall δ) (outcome : MailOutcome) : Option (DraftFolder δ × SaveCall δ) :=
  match call.stage with
  | .findDrafts => some (folder,{ call with stage := if outcome = .done then .append else .failed none })
  | .append =>
    match outcome with
    | .done => some (folder.append call.content,call.appended folder.uidNext true)
    | .lacking => some (folder.append call.content,call.appended folder.uidNext false)
    | .broken => some (folder.append call.content,{ call with stage := .failed (some folder.uidNext) })
    | .refused => some (folder,{ call with stage := .failed none })
    | .offline => some (folder,{ call with stage := if call.replaceUid.isSome then .failed none else .bust none false })
  | .delete uid told =>
    match call.replaceUid, outcome with
    | _, .offline => some (folder,{ call with stage := .failed (some uid) })
    | none, _ | some _, .refused => some (folder,{ call with stage := .bust (some uid) told })
    | some replaceUid, _ => some (folder.delete replaceUid,{ call with stage := .bust (some uid) told })
  | .bust uid told => some (folder,{ call with stage := if outcome = .done then .answered uid told else .failed uid })
  | .answered _ _ | .failed _ => none

end SaveCall

inductive DiscardStage where
  | findDrafts
  | delete
  | bust
  | ended
  deriving DecidableEq

/-- A call of `discardDraft`. -/
structure DiscardCall where
  uid : Nat
  stage : DiscardStage
  deriving DecidableEq

def DiscardCall.access (folder : DraftFolder δ) (call : DiscardCall) (outcome : MailOutcome) : Option (DraftFolder δ × DiscardCall) :=
  match call.stage with
  | .findDrafts => some (folder,{ call with stage := match outcome with
      | .done => .delete
      | .lacking => .bust
      | _ => .ended })
  | .delete =>
    match outcome with
    | .offline => some (folder,{ call with stage := .ended })
    | .refused => some (folder,{ call with stage := .bust })
    | _ => some (folder.delete call.uid,{ call with stage := .bust })
  | .bust => some (folder,{ call with stage := .ended })
  | .ended => none

section Composer

/-- A send of the composer: posted, accepted by the API, and its answer heard by the composer. -/
inductive PostStage where
  | posted
  | accepted
  | heard
  deriving DecidableEq

/-- The folder, the calls that the composer has made, and the composer: the draft that it was opened with, what the form and the
editor hold, whether the autosave timer is set, the save that `savingRef` stands for, `draftUidRef`, and whether it was closed and its
Discard button pressed. -/
structure DraftState (δ : Type) where
  folder : DraftFolder δ
  saves : List (SaveCall δ)
  discards : List DiscardCall
  posts : List PostStage
  opened : Option Nat
  content : δ
  timer : Bool
  saving : Option Nat
  draftUid : Option Nat
  closed : Bool
  discarded : Bool

inductive DraftAction (δ : Type) where
  /-- The user changes the draft. -/
  | edit (content : δ)
  /-- The editor is gone or new, as when the composer is minimized and restored. -/
  | remount (content : δ)
  /-- The timer fires. -/
  | autosave
  | save (n : Nat) (outcome : MailOutcome)
  | discard (n : Nat) (outcome : MailOutcome)
  /-- The composer hears the answer of the save it waits for, or that the request has failed, whatever has become of the call. -/
  | response
  | lost
  | send
  | accept (n : Nat)
  | sent (n : Nat)
  | pressDiscard
  | close
  /-- Other clients use the folder as well. -/
  | otherAppend (content : δ)
  | otherDelete (uid : Nat)

namespace DraftState

/-- The composer, opened with a message of the folder or none. -/
def opening (hasContent : δ → Bool) (folder : DraftFolder δ) (content : δ)
    (draft : Option { m : DraftMessage δ // m ∈ folder.messages.rows }) : DraftState δ where
  folder
  saves := []
  discards := []
  posts := []
  opened := draft.map (·.1.uid)
  content
  timer := hasContent content
  saving := none
  draftUid := draft.map (·.1.uid)
  closed := false
  discarded := false

def discardDraft (s : DraftState δ) : DraftState δ :=
  match s.draftUid with
  | none => s
  | some uid => { s with draftUid := none, discards := s.discards ++ [⟨uid,.findDrafts⟩] }

/-- The callback of the autosave timer. -/
def autosave (s : DraftState δ) : DraftState δ :=
  if s.saving.isSome then { s with timer := false }
  else { s with
    timer := false
    saving := some s.saves.length
    saves := s.saves ++ [⟨s.content,s.draftUid,.findDrafts⟩] }

/-- The answer of a save: a UID is kept in `draftUidRef`. -/
def hear (s : DraftState δ) (call : SaveCall δ) : Option (DraftState δ) :=
  match call.stage with
  | .answered uid told => some { s with saving := none, draftUid := if told then uid.orElse (fun _ => s.draftUid) else s.draftUid }
  | .failed _ => some { s with saving := none }
  | _ => none

/-- The UIDs of the messages that are the composer's. -/
def own (s : DraftState δ) : List Nat := s.opened.toList ++ s.saves.filterMap (·.stage.stored)

def ownDrafts (s : DraftState δ) : List (DraftMessage δ) := s.folder.messages.rows.filter (·.uid ∈ s.own)

end DraftState

variable (hasContent : δ → Bool)

def draftStep (s : DraftState δ) : DraftAction δ → Option (DraftState δ)
  | .edit content => if s.closed then none else some { s with content, timer := hasContent content }
  | .remount content => if s.closed then none else some { s with content }
  | .autosave => if s.timer then some s.autosave else none
  | .save n outcome => s.saves[n]?.bind fun call => (call.access s.folder outcome).map fun (folder,call) =>
      { s with folder, saves := s.saves.set n call }
  | .discard n outcome => s.discards[n]?.bind fun call => (call.access s.folder outcome).map fun (folder,call) =>
      { s with folder, discards := s.discards.set n call }
  | .response => (s.saving.bind fun n => s.saves[n]?).bind s.hear
  | .lost => if s.saving.isSome then some { s with saving := none } else none
  | .send => if s.closed then none else some { s with posts := s.posts ++ [.posted] }
  | .accept n => if s.posts[n]? = some .posted then some { s with posts := s.posts.set n .accepted } else none
  | .sent n => if s.posts[n]? = some .accepted then some { s with posts := s.posts.set n .heard }.discardDraft else none
  | .pressDiscard => if s.closed then none else some (DraftState.discardDraft { s with timer := false, closed := true, discarded := true })
  | .close => if s.closed then none else some { s with timer := false, closed := true }
  | .otherAppend content => some { s with folder := s.folder.append content }
  | .otherDelete uid => some { s with folder := s.folder.delete uid }

end Composer

section Statement
variable (s : DraftState δ)

/-- Other clients leave the messages of the composer alone. -/
def LeftAlone : DraftAction δ → Prop
  | .otherDelete uid => uid ∉ s.own
  | _ => True

/-- Besides, every access ends as asked and every answer arrives. -/
def Smooth : DraftAction δ → Prop
  | .save _ outcome | .discard _ outcome => outcome = .done
  | .lost => False
  | .otherDelete uid => uid ∉ s.own
  | _ => True

/-- Until a draft is discarded, the folder has the content of each save that has reached it, or of a later one, and before the first
of them the message that the composer was opened with; what the calls delete are messages of the composer; and drafts are discarded only
when the user says so or the API has accepted the message. -/
structure DraftKept (draft : Option (DraftMessage δ)) : Prop where
  saved : s.discards = [] → ∀ (n : Nat) (call : SaveCall δ), s.saves[n]? = some call → call.stage.stored ≠ none →
    ∃ (m : Nat) (later : SaveCall δ) (uid : Nat), n ≤ m ∧ s.saves[m]? = some later ∧ later.stage.stored = some uid ∧
      ⟨uid,later.content⟩ ∈ s.folder.messages.rows
  opened : s.discards = [] → (∀ call ∈ s.saves, call.stage.stored = none) → ∀ m ∈ draft, m ∈ s.folder.messages.rows
  replaced : ∀ call ∈ s.saves, ∀ uid, call.replaceUid = some uid → uid ∈ s.own
  discarded : ∀ call ∈ s.discards, call.uid ∈ s.own
  cause : s.discards ≠ [] → s.discarded = true ∨ .heard ∈ s.posts

/-- Neither a save nor a discard is under way. -/
structure DraftsAtRest : Prop where
  saving : s.saving = none
  discards : ∀ call ∈ s.discards, call.stage = .ended

/-- The one message of the composer in the folder is the one that `draftUidRef` names, and it is what was saved last. -/
structure SingleDraft : Prop where
  uid : s.ownDrafts.map (·.uid) = s.draftUid.toList
  content : ∀ call, s.saves.getLast? = some call → ∀ m ∈ s.ownDrafts, m.content = call.content

/-- What the folder knows of a call of `saveDraft`. -/
structure SaveRecord (δ : Type) where
  content : δ
  replaceUid : Option Nat
  stored : Option Nat

def SaveCall.record (call : SaveCall δ) : SaveRecord δ := ⟨call.content,call.replaceUid,call.stage.stored⟩

variable {folder folder' : DraftFolder δ} {call call' : SaveCall δ} {outcome : MailOutcome}

theorem SaveCall.appended_record (call : SaveCall δ) (uid : Nat) (told : Bool) :
    (call.appended uid told).record = { call.record with stored := some uid } := by
  rw [appended,record]
  split <;> rfl

/-- An access leaves the folder alone, appends the draft, or deletes the replaced one after the append. -/
theorem SaveCall.access_cases (h : call.access folder outcome = some (folder',call')) :
    (folder' = folder ∧ call'.record = call.record) ∨
    (call.stage.stored = none ∧ folder' = folder.append call.content ∧ call'.record = { call.record with stored := some folder.uidNext }) ∨
    (call.stage.stored ≠ none ∧ call'.record = call.record ∧ ∃ uid, call.replaceUid = some uid ∧ folder' = folder.delete uid) := by
  obtain ⟨content,replaceUid,stage⟩ := call
  cases stage with
  | findDrafts =>
    cases h
    refine .inl ⟨rfl,?_⟩
    cases outcome <;> rfl
  | append =>
    cases outcome with
    | done =>
      cases h
      exact .inr (.inl ⟨rfl,rfl,appended_record _ _ _⟩)
    | lacking =>
      cases h
      exact .inr (.inl ⟨rfl,rfl,appended_record _ _ _⟩)
    | broken =>
      cases h
      exact .inr (.inl ⟨rfl,rfl,rfl⟩)
    | refused =>
      cases h
      exact .inl ⟨rfl,rfl⟩
    | offline =>
      cases h
      refine .inl ⟨rfl,?_⟩
      cases replaceUid <;> rfl
  | delete uid told =>
    have hrecord : (⟨content,replaceUid,.bust (some uid) told⟩ : SaveCall δ).record = ⟨content,replaceUid,some uid⟩ := rfl
    cases replaceUid with
    | none =>
      refine .inl ?_
      cases outcome <;> (cases h; exact ⟨rfl,rfl⟩)
    | some old =>
      cases outcome with
      | offline | refused =>
        cases h
        exact .inl ⟨rfl,rfl⟩
      | done | lacking | broken =>
        cases h
        exact .inr (.inr ⟨Option.some_ne_none _,rfl,old,rfl,rfl⟩)
  | bust uid told =>
    cases h
    refine .inl ⟨rfl,?_⟩
    cases outcome <;> rfl
  | answered uid told => simp [access] at h
  | failed uid => simp [access] at h

theorem DiscardCall.access_cases {call call' : DiscardCall} (h : call.access folder outcome = some (folder',call')) :
    call'.uid = call.uid ∧ (folder' = folder ∨ folder' = folder.delete call.uid) := by
  obtain ⟨uid,stage⟩ := call
  cases stage with
  | findDrafts | bust =>
    cases h
    exact ⟨rfl,.inl rfl⟩
  | delete =>
    cases outcome with
    | offline | refused =>
      cases h
      exact ⟨rfl,.inl rfl⟩
    | done | lacking | broken =>
      cases h
      exact ⟨rfl,.inr rfl⟩
  | ended => simp [access] at h

end Statement

section Kept
variable {folder : DraftFolder δ} {rs : List (SaveRecord δ)} {opened : Option Nat} {draft : Option (DraftMessage δ)}
  {n m uid : Nat} {content content' : δ} {replaceUid : Option Nat}

/-- The save has put its draft into the folder, under the UID. -/
def StoredAt (rs : List (SaveRecord δ)) (n uid : Nat) (content : δ) : Prop := ∃ replaceUid, rs[n]? = some ⟨content,replaceUid,some uid⟩

/-- The UID is one that a save could have been told when `n` saves had been made. -/
def KnownBefore (rs : List (SaveRecord δ)) (opened : Option Nat) (n uid : Nat) : Prop :=
  opened = some uid ∨ ∃ m content, m < n ∧ StoredAt rs m uid content

/-- The UIDs of the drafts are pairwise different, and a save replaces an earlier draft. -/
structure Numbered (folder : DraftFolder δ) (rs : List (SaveRecord δ)) (opened : Option Nat) : Prop where
  below : ∀ uid, opened = some uid → uid < folder.uidNext
  fresh : ∀ n uid content, StoredAt rs n uid content → uid < folder.uidNext ∧ opened ≠ some uid
  distinct : ∀ n m uid content content', StoredAt rs n uid content → StoredAt rs m uid content' → n = m
  replaced : ∀ (n : Nat) (r : SaveRecord δ) (uid : Nat), rs[n]? = some r → r.replaceUid = some uid → KnownBefore rs opened n uid
  content : ∀ n content, ∀ m ∈ folder.messages.rows, StoredAt rs n m.uid content → m.content = content

/-- The last draft that was stored is in the folder, before that the one that was opened. -/
structure LastKept (folder : DraftFolder δ) (rs : List (SaveRecord δ)) (draft : Option (DraftMessage δ)) : Prop where
  saved : ∀ n uid content, StoredAt rs n uid content → (∀ m uid' content', StoredAt rs m uid' content' → m ≤ n) →
    ⟨uid,content⟩ ∈ folder.messages.rows
  opened : (∀ n uid content, ¬StoredAt rs n uid content) → ∀ m ∈ draft, m ∈ folder.messages.rows

theorem storedAt_set (h : rs[n]? = some ⟨content,replaceUid,none⟩) {uid' : Nat} {content' : δ} :
    StoredAt (rs.set n ⟨content,replaceUid,some uid⟩) m uid' content' ↔
      StoredAt rs m uid' content' ∨ (m = n ∧ uid' = uid ∧ content' = content) := by
  simp only [StoredAt]
  rw [getElem?_set_of_some h]
  split
  · rename_i hm
    subst hm
    rw [h]
    constructor
    · rintro ⟨r,hr⟩
      obtain ⟨rfl,-,huid⟩ := SaveRecord.mk.inj (Option.some.inj hr)
      exact .inr ⟨rfl,(Option.some.inj huid).symm,rfl⟩
    · rintro (⟨r,hr⟩ | ⟨-,rfl,rfl⟩)
      · simp at hr
      · exact ⟨replaceUid,rfl⟩
  · rename_i hm
    simp [hm]

theorem storedAt_new : StoredAt (rs ++ [⟨content,replaceUid,none⟩]) n uid content' ↔ StoredAt rs n uid content' := by
  simp only [StoredAt]
  rw [getElem?_append_new]
  split
  · rename_i hn
    simp [hn]
  · rfl

theorem KnownBefore.set (h : KnownBefore rs opened m uid) (hn : rs[n]? = some ⟨content,replaceUid,none⟩) (uid' : Nat) :
    KnownBefore (rs.set n ⟨content,replaceUid,some uid'⟩) opened m uid :=
  h.imp_right fun ⟨k,c,hk,hstored⟩ => ⟨k,c,hk,(storedAt_set hn).mpr (.inl hstored)⟩

theorem KnownBefore.mono (h : KnownBefore rs opened n uid) (hle : n ≤ m) : KnownBefore rs opened m uid :=
  h.imp_right fun ⟨k,c,hk,hstored⟩ => ⟨k,c,Nat.lt_of_lt_of_le hk hle,hstored⟩

theorem KnownBefore.new (h : KnownBefore rs opened m uid) : KnownBefore (rs ++ [⟨content,replaceUid,none⟩]) opened m uid :=
  h.imp_right fun ⟨k,c,hk,hstored⟩ => ⟨k,c,hk,storedAt_new.mpr hstored⟩

theorem Numbered.append (h : Numbered folder rs opened) (hn : rs[n]? = some ⟨content,replaceUid,none⟩) :
    Numbered (folder.append content) (rs.set n ⟨content,replaceUid,some folder.uidNext⟩) opened where
  below uid huid := Nat.lt_succ_of_lt (h.below uid huid)
  fresh m uid c hm := by
    rcases (storedAt_set hn).mp hm with hm | ⟨-,rfl,-⟩
    · exact ⟨Nat.lt_succ_of_lt (h.fresh m uid c hm).1,(h.fresh m uid c hm).2⟩
    · exact ⟨Nat.lt_succ_self _,fun hopened => absurd (h.below _ hopened) (Nat.lt_irrefl _)⟩
  distinct i j uid c c' hi hj := by
    rcases (storedAt_set hn).mp hi with hold | ⟨hin,hnext,-⟩ <;> rcases (storedAt_set hn).mp hj with hold' | ⟨hjn,hnext',-⟩
    · exact h.distinct i j uid c c' hold hold'
    · exact absurd hnext' (Nat.ne_of_lt (h.fresh i uid c hold).1)
    · exact absurd hnext (Nat.ne_of_lt (h.fresh j uid c' hold').1)
    · exact hin.trans hjn.symm
  replaced m r uid hm huid := by
    rw [getElem?_set_of_some hn] at hm
    split at hm
    · rename_i hmn
      cases hm
      exact (h.replaced m ⟨content,replaceUid,none⟩ uid (hmn ▸ hn) huid).set hn _
    · exact (h.replaced m r uid hm huid).set hn _
  content k c m hm hk := by
    rcases DraftFolder.mem_append.mp hm with hbefore | rfl <;> rcases (storedAt_set hn).mp hk with hold | ⟨-,hnext,hc⟩
    · exact h.content k c m hbefore hold
    · exact absurd hnext (Nat.ne_of_lt (folder.below m hbefore))
    · exact absurd (h.fresh k _ c hold).1 (Nat.lt_irrefl _)
    · exact hc.symm

theorem Numbered.new (h : Numbered folder rs opened) (hreplace : ∀ uid, replaceUid = some uid → KnownBefore rs opened rs.length uid) :
    Numbered folder (rs ++ [⟨content,replaceUid,none⟩]) opened where
  below := h.below
  fresh m uid c hm := h.fresh m uid c (storedAt_new.mp hm)
  distinct i j uid c c' hi hj := h.distinct i j uid c c' (storedAt_new.mp hi) (storedAt_new.mp hj)
  replaced m r uid hm huid := by
    rw [getElem?_append_new] at hm
    split at hm
    · rename_i hlast
      cases hm
      exact hlast ▸ (hreplace uid huid).new
    · exact (h.replaced m r uid hm huid).new
  content k c m hm hk := h.content k c m hm (storedAt_new.mp hk)

theorem Numbered.grow {folder' : DraftFolder δ} (h : Numbered folder rs opened) (hnext : folder.uidNext ≤ folder'.uidNext)
    (hrows : ∀ m ∈ folder'.messages.rows, m.uid < folder.uidNext → m ∈ folder.messages.rows) : Numbered folder' rs opened where
  below uid huid := Nat.lt_of_lt_of_le (h.below uid huid) hnext
  fresh m uid c hm := ⟨Nat.lt_of_lt_of_le (h.fresh m uid c hm).1 hnext,(h.fresh m uid c hm).2⟩
  distinct := h.distinct
  replaced := h.replaced
  content k c m hm hk := h.content k c m (hrows m hm (h.fresh k m.uid c hk).1) hk

theorem Numbered.delete (h : Numbered folder rs opened) (uid : Nat) : Numbered (folder.delete uid) rs opened :=
  h.grow (Nat.le_refl _) fun _ hm _ => (DraftFolder.mem_delete.mp hm).1

theorem LastKept.append (h : LastKept folder rs draft) (hn : rs[n]? = some ⟨content,replaceUid,none⟩) :
    LastKept (folder.append content) (rs.set n ⟨content,replaceUid,some folder.uidNext⟩) draft where
  saved m uid c hm hlast := by
    rw [DraftFolder.mem_append]
    rcases (storedAt_set hn).mp hm with hm | ⟨-,rfl,rfl⟩
    · exact .inl (h.saved m uid c hm fun k uid' c' hk => hlast k uid' c' ((storedAt_set hn).mpr (.inl hk)))
    · exact .inr rfl
  opened hnone := absurd ((storedAt_set hn).mpr (.inr ⟨rfl,rfl,rfl⟩)) (hnone _ _ _)

theorem LastKept.new (h : LastKept folder rs draft) : LastKept folder (rs ++ [⟨content,replaceUid,none⟩]) draft where
  saved m uid c hm hlast := h.saved m uid c (storedAt_new.mp hm) fun k uid' c' hk => hlast k uid' c' (storedAt_new.mpr hk)
  opened hnone := h.opened fun m uid c hm => hnone m uid c (storedAt_new.mpr hm)

theorem LastKept.otherAppend (h : LastKept folder rs draft) : LastKept (folder.append content) rs draft where
  saved m uid c hm hlast := DraftFolder.mem_append.mpr (.inl (h.saved m uid c hm hlast))
  opened hnone m hm := DraftFolder.mem_append.mpr (.inl (h.opened hnone m hm))

/-- A save that has stored its own draft deletes an earlier one. -/
theorem LastKept.replace (h : LastKept folder rs draft) (hnumbered : Numbered folder rs opened)
    (hn : rs[n]? = some ⟨content,some uid,some m⟩) : LastKept (folder.delete uid) rs draft where
  saved k uid' c hk hlast := by
    refine DraftFolder.mem_delete.mpr ⟨h.saved k uid' c hk hlast,?_⟩
    rintro rfl
    have hle : n ≤ k := hlast n m content ⟨_,hn⟩
    rcases hnumbered.replaced n _ uid' hn rfl with hopened | ⟨i,c',hlt,hi⟩
    · exact (hnumbered.fresh k uid' c hk).2 hopened
    · have hsame := hnumbered.distinct i k uid' c' c hi hk
      omega
  opened hnone := absurd ⟨_,hn⟩ (hnone n m content)

theorem LastKept.otherDelete (h : LastKept folder rs draft) (hstored : ∀ n content, ¬StoredAt rs n uid content)
    (hopened : ∀ m ∈ draft, m.uid ≠ uid) :
    LastKept (folder.delete uid) rs draft where
  saved n uid' c hn hlast := by
    refine DraftFolder.mem_delete.mpr ⟨h.saved n uid' c hn hlast,?_⟩
    rintro rfl
    exact hstored n c hn
  opened hnone m hm := DraftFolder.mem_delete.mpr ⟨h.opened hnone m hm,hopened m hm⟩

end Kept

section Invariant
variable {hasContent : δ → Bool} {s t : DraftState δ} {a : DraftAction δ} {draft : Option (DraftMessage δ)} {n uid : Nat}

def DraftState.records (s : DraftState δ) : List (SaveRecord δ) := s.saves.map SaveCall.record

def DraftState.Known (s : DraftState δ) (uid : Nat) : Prop := KnownBefore s.records s.opened s.records.length uid

structure DraftInv (draft : Option (DraftMessage δ)) (s : DraftState δ) : Prop where
  opened : s.opened = draft.map (·.uid)
  numbered : Numbered s.folder s.records s.opened
  kept : s.discards = [] → LastKept s.folder s.records draft
  draftUid : ∀ uid, s.draftUid = some uid → s.Known uid
  discarded : ∀ call ∈ s.discards, s.Known call.uid
  cause : s.discards ≠ [] → s.discarded = true ∨ .heard ∈ s.posts

theorem call_of_storedAt {content : δ} (h : StoredAt s.records n uid content) :
    ∃ call, s.saves[n]? = some call ∧ call.stage.stored = some uid := by
  obtain ⟨replaceUid,hrecord⟩ := h
  rw [DraftState.records,List.getElem?_map] at hrecord
  obtain ⟨call,hcall,hsame⟩ := Option.map_eq_some_iff.mp hrecord
  exact ⟨call,hcall,congrArg SaveRecord.stored hsame⟩

theorem mem_own : uid ∈ s.own ↔ s.Known uid := by
  rw [DraftState.own,List.mem_append,Option.mem_toList,DraftState.Known,KnownBefore]
  refine or_congr_right ?_
  rw [List.mem_filterMap]
  constructor
  · rintro ⟨call,hcall,hstored⟩
    obtain ⟨n,hn,rfl⟩ := List.mem_iff_getElem.mp hcall
    refine ⟨n,s.saves[n].content,by simpa [DraftState.records] using hn,s.saves[n].replaceUid,?_⟩
    rw [DraftState.records,List.getElem?_map,List.getElem?_eq_getElem hn,Option.map_some,SaveCall.record,hstored]
  · rintro ⟨n,content,-,replaceUid,hn⟩
    obtain ⟨call,hcall,hstored⟩ := call_of_storedAt ⟨replaceUid,hn⟩
    exact ⟨call,List.mem_of_getElem? hcall,hstored⟩

theorem DraftState.record_at {call : SaveCall δ} (h : s.saves[n]? = some call) : s.records[n]? = some call.record := by
  rw [records,List.getElem?_map,h,Option.map_some]

theorem DraftInv.moved (h : DraftInv draft s) (hopened : t.opened = s.opened) (hnumbered : Numbered t.folder t.records t.opened)
    (hkept : t.discards = [] → LastKept t.folder t.records draft) (hknown : ∀ uid, s.Known uid → t.Known uid)
    (hdraftUid : ∀ uid, t.draftUid = some uid → t.Known uid) (hdiscards : t.discards.map (·.uid) = s.discards.map (·.uid))
    (hcause : s.discarded = true ∨ .heard ∈ s.posts → t.discarded = true ∨ .heard ∈ t.posts) : DraftInv draft t := by
  refine ⟨hopened.trans h.opened,hnumbered,hkept,hdraftUid,fun call hcall => ?_,fun hne => hcause (h.cause fun hnil => hne ?_)⟩
  · have huid : call.uid ∈ s.discards.map (·.uid) := hdiscards ▸ List.mem_map_of_mem hcall
    obtain ⟨call',hcall',hsame⟩ := List.mem_map.mp huid
    exact hsame ▸ hknown _ (h.discarded call' hcall')
  · rw [hnil] at hdiscards
    exact List.map_eq_nil_iff.mp hdiscards

/-- What the composer does by itself changes neither the folder nor a call. -/
theorem DraftInv.composer (h : DraftInv draft s) (hfolder : t.folder = s.folder) (hsaves : t.saves = s.saves)
    (hopened : t.opened = s.opened)
    (hdiscards : t.discards = s.discards) (hdraftUid : ∀ uid, t.draftUid = some uid → s.Known uid)
    (hcause : s.discarded = true ∨ .heard ∈ s.posts → t.discarded = true ∨ .heard ∈ t.posts) : DraftInv draft t := by
  have hrecords : t.records = s.records := congrArg (List.map SaveCall.record) hsaves
  have hknown : ∀ uid, t.Known uid ↔ s.Known uid := fun uid => by rw [DraftState.Known,DraftState.Known,hrecords,hopened]
  refine h.moved hopened ?_ ?_ (fun uid => (hknown uid).mpr) (fun uid huid => (hknown uid).mpr (hdraftUid uid huid))
    (by rw [hdiscards]) hcause
  · rw [hfolder,hrecords,hopened]
    exact h.numbered
  · rw [hdiscards,hfolder,hrecords]
    exact h.kept

theorem DraftInv.discardDraft (h : DraftInv draft s) (hcause : s.discarded = true ∨ .heard ∈ s.posts) : DraftInv draft s.discardDraft := by
  rw [DraftState.discardDraft]
  split
  · exact h
  · rename_i uid huid
    refine ⟨h.opened,h.numbered,by simp,by simp,fun call hcall => ?_,fun _ => hcause⟩
    rcases List.mem_append.mp hcall with hcall | hcall
    · exact h.discarded call hcall
    · rw [List.mem_singleton.mp hcall]
      exact h.draftUid uid huid

theorem DraftInv.autosave (h : DraftInv draft s) : DraftInv draft s.autosave := by
  rw [DraftState.autosave]
  split
  · exact h.composer rfl rfl rfl rfl h.draftUid id
  · let t : DraftState δ := { s with
      timer := false
      saving := some s.saves.length
      saves := s.saves ++ [⟨s.content,s.draftUid,.findDrafts⟩] }
    have hrecords : t.records = s.records ++ [⟨s.content,s.draftUid,none⟩] := List.map_append
    have hknown : ∀ uid, s.Known uid → t.Known uid := by
      intro uid huid
      rw [DraftState.Known,hrecords]
      exact KnownBefore.mono (KnownBefore.new huid) (by simp)
    refine h.moved rfl ?_ ?_ hknown (fun uid huid => hknown uid (h.draftUid uid huid)) rfl id
    · change Numbered s.folder t.records s.opened
      rw [hrecords]
      exact h.numbered.new h.draftUid
    · change s.discards = [] → LastKept s.folder t.records draft
      rw [hrecords]
      exact fun hdiscards => (h.kept hdiscards).new

theorem DraftInv.save {folder : DraftFolder δ} {call call' : SaveCall δ} {outcome : MailOutcome} (h : DraftInv draft s)
    (hn : s.saves[n]? = some call) (haccess : call.access s.folder outcome = some (folder,call')) :
    DraftInv draft { s with folder, saves := s.saves.set n call' } := by
  let t : DraftState δ := { s with folder, saves := s.saves.set n call' }
  have hrecord := DraftState.record_at hn
  have hrecords : t.records = s.records.set n call'.record := List.map_set
  have hmoved : Numbered folder t.records s.opened → (s.discards = [] → LastKept folder t.records draft) →
    (∀ uid, s.Known uid → t.Known uid) →
      DraftInv draft t :=
    fun hnumbered hkept hknown => h.moved rfl hnumbered hkept hknown (fun uid huid => hknown uid (h.draftUid uid huid)) rfl id
  have hunchanged : call'.record = call.record → t.records = s.records := by
    intro hsame
    obtain ⟨hlt,hget⟩ := List.getElem?_eq_some_iff.mp hrecord
    rw [hrecords,hsame,← hget]
    exact List.set_getElem_self hlt
  have hsame : t.records = s.records → ∀ uid, s.Known uid → t.Known uid := by
    intro hrecords uid huid
    rw [DraftState.Known,hrecords]
    exact huid
  rcases call.access_cases haccess with ⟨rfl,hrecord'⟩ | ⟨hnone,rfl,hrecord'⟩ | ⟨hstored,hrecord',uid,huid,rfl⟩
  · have hkeep := hunchanged hrecord'
    refine hmoved ?_ ?_ (hsame hkeep)
    · rw [hkeep]
      exact h.numbered
    · rw [hkeep]
      exact h.kept
  · rw [hrecord'] at hrecords
    rw [SaveCall.record,hnone] at hrecord hrecords
    refine hmoved ?_ ?_ fun uid huid => ?_
    · rw [hrecords]
      exact h.numbered.append hrecord
    · rw [hrecords]
      exact fun hdiscards => (h.kept hdiscards).append hrecord
    · rw [DraftState.Known,hrecords,List.length_set]
      exact KnownBefore.set huid hrecord _
  · have hkeep := hunchanged hrecord'
    obtain ⟨old,hold⟩ := Option.ne_none_iff_exists'.mp hstored
    rw [SaveCall.record,huid,hold] at hrecord
    refine hmoved ?_ ?_ (hsame hkeep)
    · rw [hkeep]
      exact h.numbered.delete uid
    · rw [hkeep]
      exact fun hdiscards => (h.kept hdiscards).replace h.numbered hrecord

theorem DraftInv.discard {folder : DraftFolder δ} {call call' : DiscardCall} {outcome : MailOutcome} (h : DraftInv draft s)
    (hn : s.discards[n]? = some call) (haccess : call.access s.folder outcome = some (folder,call')) :
    DraftInv draft { s with folder, discards := s.discards.set n call' } := by
  obtain ⟨huid,hfolder⟩ := call.access_cases haccess
  have hnumbered : Numbered folder s.records s.opened := by
    rcases hfolder with rfl | rfl
    · exact h.numbered
    · exact h.numbered.delete call.uid
  have huids : (s.discards.set n call').map (·.uid) = s.discards.map (·.uid) := by
    obtain ⟨hlt,hget⟩ := List.getElem?_eq_some_iff.mp hn
    rw [List.map_set,huid,← hget,← List.map_set,List.set_getElem_self hlt]
  refine h.moved rfl hnumbered (fun hnil => ?_) (fun _ => id) h.draftUid huids id
  have hlength := congrArg List.length hnil
  obtain ⟨hlt,-⟩ := List.getElem?_eq_some_iff.mp hn
  rw [List.length_set,List.length_nil] at hlength
  omega

theorem DraftState.known_of_stored {call : SaveCall δ} (hn : s.saves[n]? = some call)
    (hstored : call.stage.stored = some uid) : s.Known uid :=
  mem_own.mp (List.mem_append_right _ (List.mem_filterMap.mpr ⟨call,List.mem_of_getElem? hn,hstored⟩))

theorem DraftState.hear_cases {call : SaveCall δ} (h : s.hear call = some t) :
    (∃ uid told, call.stage = .answered uid told ∧
      t = { s with saving := none, draftUid := if told then uid.orElse (fun _ => s.draftUid) else s.draftUid }) ∨
    ∃ uid, call.stage = .failed uid ∧ t = { s with saving := none } := by
  rw [hear] at h
  split at h
  · rename_i uid told hstage
    exact .inl ⟨uid,told,hstage,(Option.some.inj h).symm⟩
  · rename_i uid hstage
    exact .inr ⟨uid,hstage,(Option.some.inj h).symm⟩
  · simp at h

theorem DraftInv.response {call : SaveCall δ} (h : DraftInv draft s) (hn : s.saves[n]? = some call) (hhear : s.hear call = some t) :
    DraftInv draft t := by
  rcases DraftState.hear_cases hhear with ⟨uid,told,hstage,rfl⟩ | ⟨uid,-,rfl⟩
  · refine h.composer rfl rfl rfl rfl (fun uid' huid => ?_) id
    cases told with
    | false => exact h.draftUid uid' huid
    | true =>
      cases uid with
      | none => exact h.draftUid uid' huid
      | some uid => exact DraftState.known_of_stored hn ((congrArg SaveStage.stored hstage).trans huid)
  · exact h.composer rfl rfl rfl rfl h.draftUid id

theorem DraftInv.otherDelete (h : DraftInv draft s) (halone : uid ∉ s.own) : DraftInv draft { s with folder := s.folder.delete uid } := by
  have hunknown : ¬s.Known uid := fun hknown => halone (mem_own.mpr hknown)
  refine h.moved rfl (h.numbered.delete uid) (fun hdiscards => ?_) (fun _ => id) h.draftUid rfl id
  refine (h.kept hdiscards).otherDelete (fun n content hn => hunknown (.inr ⟨n,content,?_,hn⟩)) fun m hm huid => hunknown (.inl ?_)
  · obtain ⟨_,hget⟩ := hn
    exact (List.getElem?_eq_some_iff.mp hget).1
  · rw [h.opened,Option.mem_def.mp hm,Option.map_some,huid]

theorem draftInv_step (h : DraftInv draft s) (halone : LeftAlone s a) (hstep : draftStep hasContent s a = some t) : DraftInv draft t := by
  cases a with
  | edit content | remount content | close =>
    obtain ⟨-,ht⟩ := Option.ite_none_left_eq_some.mp hstep
    cases ht
    exact h.composer rfl rfl rfl rfl h.draftUid id
  | autosave =>
    obtain ⟨-,ht⟩ := Option.ite_none_right_eq_some.mp hstep
    cases ht
    exact h.autosave
  | save n outcome =>
    obtain ⟨call,hn,hmap⟩ := Option.bind_eq_some_iff.mp hstep
    obtain ⟨⟨folder,call'⟩,haccess,rfl⟩ := Option.map_eq_some_iff.mp hmap
    exact h.save hn haccess
  | discard n outcome =>
    obtain ⟨call,hn,hmap⟩ := Option.bind_eq_some_iff.mp hstep
    obtain ⟨⟨folder,call'⟩,haccess,rfl⟩ := Option.map_eq_some_iff.mp hmap
    exact h.discard hn haccess
  | response =>
    obtain ⟨call,hcall,hhear⟩ := Option.bind_eq_some_iff.mp hstep
    obtain ⟨n,-,hn⟩ := Option.bind_eq_some_iff.mp hcall
    exact h.response hn hhear
  | lost =>
    obtain ⟨-,ht⟩ := Option.ite_none_right_eq_some.mp hstep
    cases ht
    exact h.composer rfl rfl rfl rfl h.draftUid id
  | send =>
    obtain ⟨-,ht⟩ := Option.ite_none_left_eq_some.mp hstep
    cases ht
    exact h.composer rfl rfl rfl rfl h.draftUid (Or.imp_right fun hheard => List.mem_append_left _ hheard)
  | accept n =>
    obtain ⟨hn,ht⟩ := Option.ite_none_right_eq_some.mp hstep
    cases ht
    refine h.composer rfl rfl rfl rfl h.draftUid (Or.imp_right fun hheard => ?_)
    obtain ⟨i,hi⟩ := List.mem_iff_getElem?.mp hheard
    exact List.mem_iff_getElem?.mpr ⟨i,getElem?_set_other hn hi (by simp) _⟩
  | sent n =>
    obtain ⟨hn,ht⟩ := Option.ite_none_right_eq_some.mp hstep
    cases ht
    have hheard : PostStage.heard ∈ s.posts.set n .heard := List.mem_set (List.getElem?_eq_some_iff.mp hn).1 _
    have hposts : DraftInv draft { s with posts := s.posts.set n .heard } := h.composer rfl rfl rfl rfl h.draftUid fun _ => .inr hheard
    exact hposts.discardDraft (.inr hheard)
  | pressDiscard =>
    obtain ⟨-,ht⟩ := Option.ite_none_left_eq_some.mp hstep
    cases ht
    have hpressed : DraftInv draft { s with timer := false, closed := true, discarded := true } :=
      h.composer rfl rfl rfl rfl h.draftUid fun _ => .inl rfl
    exact hpressed.discardDraft (.inl rfl)
  | otherAppend content =>
    cases hstep
    have hnumbered : Numbered (s.folder.append content) s.records s.opened := by
      refine h.numbered.grow (Nat.le_succ _) fun m hm hold => ?_
      rcases DraftFolder.mem_append.mp hm with hm | rfl
      · exact hm
      · exact absurd hold (Nat.lt_irrefl _)
    exact h.moved rfl hnumbered (fun hdiscards => (h.kept hdiscards).otherAppend) (fun _ => id) h.draftUid rfl id
  | otherDelete uid =>
    cases hstep
    exact h.otherDelete halone

theorem draftInv_opening (folder : DraftFolder δ) (content : δ) (draft : Option { m : DraftMessage δ // m ∈ folder.messages.rows }) :
    DraftInv (draft.map (·.1)) (.opening hasContent folder content draft) where
  opened := by simp [DraftState.opening]
  numbered := by
    refine ⟨fun uid huid => ?_,
      by simp [StoredAt,DraftState.opening,DraftState.records],by simp [StoredAt,DraftState.opening,DraftState.records],
      by simp [DraftState.opening,DraftState.records],by simp [StoredAt,DraftState.opening,DraftState.records]⟩
    obtain ⟨m,-,rfl⟩ := Option.map_eq_some_iff.mp huid
    exact folder.below m.1 m.2
  kept _ := by
    refine ⟨by simp [StoredAt,DraftState.opening,DraftState.records],fun _ m hm => ?_⟩
    obtain ⟨m,-,rfl⟩ := Option.map_eq_some_iff.mp hm
    exact m.2
  draftUid uid huid := .inl huid
  discarded call hcall := absurd hcall List.not_mem_nil
  cause hne := absurd rfl hne

/-- From a save that has stored its draft on there is a last one that has. -/
theorem exists_last {n : Nat} {call : SaveCall δ} (hn : s.saves[n]? = some call) (hstored : call.stage.stored ≠ none) :
    ∃ m later, n ≤ m ∧ s.saves[m]? = some later ∧ later.stage.stored ≠ none ∧
      ∀ k uid content, StoredAt s.records k uid content → k ≤ m := by
  by_cases hlater : ∃ k uid content, n < k ∧ StoredAt s.records k uid content
  · obtain ⟨k,uid,content,hlt,hk⟩ := hlater
    obtain ⟨later,hcall,hlaterStored⟩ := call_of_storedAt hk
    have hbound := (List.getElem?_eq_some_iff.mp hcall).1
    obtain ⟨m,last,hle,hlast⟩ := exists_last hcall (by simp [hlaterStored])
    exact ⟨m,last,by omega,hlast⟩
  · exact ⟨n,call,Nat.le_refl _,hn,hstored,fun k uid content hk => Nat.le_of_not_lt fun hlt => hlater ⟨k,uid,content,hlt,hk⟩⟩
termination_by s.saves.length - n

/-- A draft that has been saved is not lost, whatever fails on the way and whatever is under way at the same time. -/
theorem draft_kept (folder : DraftFolder δ) (content : δ) (draft : Option { m : DraftMessage δ // m ∈ folder.messages.rows })
    (hrun : Run (draftStep hasContent) LeftAlone (.opening hasContent folder content draft) s) : DraftKept s (draft.map (·.1)) := by
  have hinv := hrun.invariant (fun _ _ _ h ha hstep => draftInv_step h ha hstep) (draftInv_opening folder content draft)
  constructor
  · intro hdiscards n call hn hstored
    obtain ⟨m,later,hle,hm,hlater,hlast⟩ := exists_last hn hstored
    obtain ⟨uid,huid⟩ := Option.ne_none_iff_exists'.mp hlater
    refine ⟨m,later,uid,hle,hm,huid,(hinv.kept hdiscards).saved m uid later.content ?_ hlast⟩
    refine ⟨later.replaceUid,(DraftState.record_at hm).trans ?_⟩
    rw [SaveCall.record,huid]
  · intro hdiscards hnone
    refine (hinv.kept hdiscards).opened fun n uid content hn => ?_
    obtain ⟨call,hcall,hstored⟩ := call_of_storedAt hn
    simp [hnone call (List.mem_of_getElem? hcall)] at hstored
  · intro call hcall uid huid
    obtain ⟨n,hn⟩ := List.mem_iff_getElem?.mp hcall
    have hrecord := DraftState.record_at hn
    exact mem_own.mpr ((hinv.numbered.replaced n call.record uid hrecord huid).mono
      (Nat.le_of_lt (List.getElem?_eq_some_iff.mp hrecord).1))
  · exact fun call hcall => mem_own.mpr (hinv.discarded call hcall)
  · exact hinv.cause

instance (s : DraftState δ) : DecidablePred (LeftAlone s) := fun a =>
  match a with
  | .otherDelete uid => inferInstanceAs (Decidable (uid ∉ s.own))
  | .edit _ | .remount _ | .autosave | .save _ _ | .discard _ _ | .response | .lost | .send | .accept _ | .sent _ | .pressDiscard |
    .close | .otherAppend _ => .isTrue trivial

/-- A folder with one message of another client. -/
def oneDraft : DraftFolder Nat := ⟨⟨[⟨3,30⟩],by decide⟩,4,by decide⟩

def isFilled (content : Nat) : Bool := content > 0

/-- The connection breaks once the first save has been stored; the composer saves again, over the draft that it knows, and hears
nothing of that either. -/
def brokenSaves : List (DraftAction Nat) :=
  [.edit 31,.autosave,.save 0 .done,.save 0 .broken,.response,.edit 32,.autosave,.save 1 .done,.lost,.save 1 .done,.otherAppend 99,
    .save 1 .done,.save 1 .refused,.close]

theorem broken_saves_kept : ∃ s, s.folder.messages.rows = [⟨4,31⟩,⟨5,32⟩,⟨6,99⟩] ∧ s.own = [3,4,5] ∧ DraftKept s (some ⟨3,30⟩) := by
  let draft : Option { m : DraftMessage Nat // m ∈ oneDraft.messages.rows } := some ⟨⟨3,30⟩,List.mem_singleton_self _⟩
  have htrace : (runActions (draftStep isFilled) LeftAlone (.opening isFilled oneDraft 30 draft) brokenSaves).map
      (fun s => (s.folder.messages.rows,s.own)) = some ([⟨4,31⟩,⟨5,32⟩,⟨6,99⟩],[3,4,5]) := by decide +kernel
  obtain ⟨s,hs,hview⟩ := Option.map_eq_some_iff.mp htrace
  exact ⟨s,congrArg Prod.fst hview,congrArg Prod.snd hview,draft_kept oneDraft 30 draft (.of_actions hs)⟩

end Invariant
end JustMail.Webmail
