import JustMail.Foundation.Runs
import JustMail.Webmail.SearchWindow

/-! The list of a folder and the flags that have changed since (`listMessages` and `syncMessages` of
`webmail.service.ts`), beside other sessions that change the folder. -/
namespace JustMail.Webmail.Search
open Foundation

section Calls
variable {δ : Type} (casing : CaseMapping)

/-- `listMessages` without a cached list; `fetch` reads a range of sequence numbers. -/
def listMessages (limit : Nat) (mb : Option MailboxObject) (fetch : Nat → Nat → List (FetchedMessage δ)) : MessageList δ :=
  let uid_validity := uidValidityText mb
  let mod_seq := modSeqText mb
  let status := (mb.bind (·.exists)).getD 0
  if status = 0 then ⟨[],0,uid_validity,mod_seq⟩
  else ⟨collectSummaries casing (fetch (max (status + 1 - limit) 1) status),status,uid_validity,mod_seq⟩

structure MessageSync where
  uid_validity : Option JsString
  mod_seq : Option JsString
  stale : Bool
  changed : List (Nat × List JsString)

/-- Both are given, and differ. -/
def isStale (client server : Option JsString) : Bool :=
  match client, server with
  | some a, some b => a ≠ [] && b ≠ [] && a ≠ b
  | _, _ => false

/-- Whether the folder is asked: there is a mark, and the folder holds messages. -/
def asksFolder (mb : Option MailboxObject) (since : Option Nat) : Bool := since.isSome && (mb.bind (·.exists)).getD 0 ≠ 0

/-- `syncMessages`; `fetch` reads the flags of the messages changed since a mark. -/
def syncMessages (mb : Option MailboxObject) (fetch : Nat → List (Nat × List JsString))
    (since : Option Nat) (clientUidValidity : Option JsString) :
    MessageSync :=
  let uid_validity := uidValidityText mb
  let mod_seq := modSeqText mb
  if isStale clientUidValidity uid_validity then ⟨uid_validity,mod_seq,true,[]⟩
  else ⟨uid_validity,mod_seq,false,if asksFolder mb since then fetch (since.getD 0) else []⟩

/-- `text && /^\d+$/.test(text)`. -/
def isNumeral (text : JsString) : Bool := text ≠ [] && text.all isDigit

/-- The parameters of the request, as the controller reads them. -/
def sinceOf (text : Option JsString) : Option Nat := (text.filter isNumeral).map digitsValue
def uidValidityOf (text : Option JsString) : Option JsString := text.filter isNumeral

/-- The flags of a message in a response; of two entries the last. -/
def newFlags (changed : List (Nat × List JsString)) (uid : Nat) : Option (List JsString) :=
  ((changed.filter fun p => p.1 = uid).getLast?).map (·.2)

def patchItem (changed : List (Nat × List JsString)) (m : MessageSummaryItem δ) : MessageSummaryItem δ :=
  { m with flags := (newFlags changed m.uid).getD m.flags }

/-- What the client makes of a response: it applies what has changed and keeps the new mark. -/
def applySync (list : MessageList δ) (delta : MessageSync) : Option (MessageList δ) :=
  if delta.stale then none else some { list with messages := list.messages.map (patchItem delta.changed), mod_seq := delta.mod_seq }

structure ServerMessage where
  flags : List JsString
  modseq : Nat

/-- A CONDSTORE folder. -/
structure ServerFolder where
  messages : Nat → Option ServerMessage
  highestModseq : Nat
  uidNext : Nat

def ServerFolder.put (f : ServerFolder) (uid : Nat) (msg : Option ServerMessage) : ServerFolder :=
  { f with messages := fun k => if k = uid then msg else f.messages k }

/-- A call of `listMessages` with what it has read so far. -/
structure Listing (δ : Type) where
  mailbox : Option MailboxObject
  fetched : List (FetchedMessage δ)

/-- A call of `syncMessages`: its answer so far, and the messages that the server has looked at. -/
structure Syncing where
  mailbox : Option MailboxObject
  since : Option Nat
  uidValidity : Option JsString
  looked : List Nat
  changed : List (Nat × List JsString)

/-- The folder, the cached list of the session, the client's list and the calls in flight. -/
structure SyncState (δ : Type) where
  folder : ServerFolder
  cache : Option (MessageList δ)
  client : Option (MessageList δ)
  listings : Nat → Option (Listing δ)
  syncing : Option Syncing

def SyncState.initial (folder : ServerFolder) : SyncState δ := ⟨folder,none,none,fun _ => none,none⟩

def SyncState.setListing (s : SyncState δ) (i : Nat) (listing : Option (Listing δ)) : SyncState δ :=
  { s with listings := fun k => if k = i then listing else s.listings k }

inductive SyncAction (δ : Type) where
  | setFlags (uid : Nat) (flags : List JsString) (modseq : Nat)
  | expunge (uid : Nat)
  | deliver (flags : List JsString) (modseq : Nat)
  | bust
  | beginList (i : Nat) (mailbox : Option MailboxObject)
  | readListed (i uid seq : Nat) (bodyStructure : Option MessageStructureObject) (details : δ)
  | endList (i limit : Nat) (opened : Bool)
  | openCached
  | beginSync (mailbox : Option MailboxObject)
  | readChanged (uid : Nat)
  | endSync

/-- One step. A call looks at one message at a time, and its mark is taken when it begins. -/
def syncStep (casing : CaseMapping) (s : SyncState δ) : SyncAction δ → Option (SyncState δ)
  | .setFlags uid flags modseq => (s.folder.messages uid).map fun _ =>
      { s with folder := { s.folder.put uid (some ⟨flags,modseq⟩) with highestModseq := modseq } }
  | .expunge uid => some { s with folder := s.folder.put uid none }
  | .deliver flags modseq => some { s with
      folder := { s.folder.put s.folder.uidNext (some ⟨flags,modseq⟩) with highestModseq := modseq, uidNext := s.folder.uidNext + 1 } }
  | .bust => some { s with cache := none }
  | .beginList i mailbox => some (s.setListing i (some ⟨mailbox,[]⟩))
  | .readListed i uid seq bodyStructure details => do
      let listing ← s.listings i
      let msg ← s.folder.messages uid
      pure (s.setListing i (some { listing with fetched := listing.fetched ++ [⟨uid,seq,msg.flags,bodyStructure,details⟩] }))
  | .endList i limit opened => do
      let listing ← s.listings i
      let list := listMessages casing limit listing.mailbox fun _ _ => listing.fetched
      pure { s.setListing i none with cache := some list, client := if opened && s.syncing.isNone then some list else s.client }
  | .openCached => if s.syncing.isNone then s.cache.map fun list => { s with client := some list } else none
  | .beginSync mailbox => do
      let list ← s.client
      if s.syncing.isNone then
        pure { s with syncing := some ⟨mailbox,sinceOf list.mod_seq,uidValidityOf list.uid_validity,[],[]⟩ }
      else none
  | .readChanged uid => do
      let call ← s.syncing
      let msg ← s.folder.messages uid
      if asksFolder call.mailbox call.since then
        pure { s with syncing := some { call with
          looked := uid :: call.looked
          changed := if call.since.getD 0 < msg.modseq then call.changed ++ [(uid,msg.flags)] else call.changed } }
      else none
  | .endSync => do
      let call ← s.syncing
      let list ← s.client
      pure { s with
        client := applySync list (syncMessages call.mailbox (fun _ => call.changed) call.since call.uidValidity)
        syncing := none }

/-- The mailbox object has a mark, not above the folder's, and the UID validity of the folder. -/
structure Marked (validity : Nat) (f : ServerFolder) (mailbox : Option MailboxObject) (mark : Nat) : Prop where
  object : mailbox.bind (·.highestModseq) = some mark
  validity : ∀ v ∈ mailbox.bind (·.uidValidity), v = validity
  mark_le : mark ≤ f.highestModseq

/-- What the other sessions, the server and its client keep to: a change gets a mark above all earlier ones, a mailbox
object counts the messages that are there, and a search for changes looks at every message that is still there. -/
def syncAllowed (validity : Nat) (s : SyncState δ) : SyncAction δ → Prop
  | .setFlags _ _ modseq => s.folder.highestModseq < modseq
  | .deliver _ modseq => s.folder.highestModseq < modseq
  | .beginList _ mailbox => ∃ mark, Marked validity s.folder mailbox mark
  | .beginSync mailbox => (∃ mark, Marked validity s.folder mailbox mark) ∧
      ∀ list ∈ s.client, ∀ m ∈ list.messages, s.folder.messages m.uid ≠ none → (mailbox.bind (·.exists)).getD 0 ≠ 0
  | .endSync => ∀ call ∈ s.syncing, asksFolder call.mailbox call.since = true →
      ∀ list ∈ s.client, ∀ m ∈ list.messages, s.folder.messages m.uid ≠ none → m.uid ∈ call.looked
  | _ => True

end Calls
section Marks
variable {δ : Type} {f f' : ServerFolder} {mark uid : Nat} {flags : List JsString}

/-- While a message has no change above the mark, it has these flags. -/
structure Known (f : ServerFolder) (mark uid : Nat) (flags : List JsString) : Prop where
  uid_lt : uid < f.uidNext
  flags_eq : ∀ msg, f.messages uid = some msg → msg.modseq ≤ mark → msg.flags = flags

/-- What may have become of a folder. -/
structure Later (f f' : ServerFolder) : Prop where
  highest : f.highestModseq ≤ f'.highestModseq
  uidNext : f.uidNext ≤ f'.uidNext
  message : ∀ uid < f.uidNext, ∀ msg, f'.messages uid = some msg →
    f.messages uid = some msg ∨ (f.messages uid ≠ none ∧ f.highestModseq < msg.modseq)

theorem Known.later (h : Known f mark uid flags) (hlater : Later f f') (hmark : mark ≤ f.highestModseq) : Known f' mark uid flags := by
  refine ⟨h.uid_lt.trans_le hlater.uidNext,fun msg hmsg hle => ?_⟩
  rcases hlater.message uid h.uid_lt msg hmsg with hsame | ⟨-,hnew⟩
  · exact h.flags_eq msg hsame hle
  · omega

theorem gone_later (hlt : uid < f.uidNext) (hlater : Later f f') (h : f.messages uid = none) : f'.messages uid = none := by
  cases hmsg : f'.messages uid with
  | none => rfl
  | some msg =>
    rcases hlater.message uid hlt msg hmsg with hsame | ⟨hsome,-⟩
    · rw [h] at hsame
      cases hsame
    · exact absurd h hsome

theorem later_setFlags {modseq : Nat} {msg : ServerMessage} (hmsg : f.messages uid = some msg) (h : f.highestModseq < modseq) :
    Later f { f.put uid (some ⟨flags,modseq⟩) with highestModseq := modseq } := by
  refine ⟨h.le,le_rfl,fun k _ msg' hmsg' => ?_⟩
  change (if k = uid then some ⟨flags,modseq⟩ else f.messages k) = some msg' at hmsg'
  split at hmsg'
  · rename_i hk
    cases hmsg'
    exact .inr ⟨by rw [hk,hmsg]; exact Option.some_ne_none _,h⟩
  · exact .inl hmsg'

theorem later_expunge (f : ServerFolder) (uid : Nat) : Later f (f.put uid none) := by
  refine ⟨le_rfl,le_rfl,fun k _ msg hmsg => .inl ?_⟩
  change (if k = uid then none else f.messages k) = some msg at hmsg
  split at hmsg
  · cases hmsg
  · exact hmsg

theorem later_deliver {modseq : Nat} (h : f.highestModseq < modseq) :
    Later f { f.put f.uidNext (some ⟨flags,modseq⟩) with highestModseq := modseq, uidNext := f.uidNext + 1 } := by
  refine ⟨h.le,Nat.le_succ _,fun k hk msg hmsg => .inl ?_⟩
  change (if k = f.uidNext then some ⟨flags,modseq⟩ else f.messages k) = some msg at hmsg
  rwa [if_neg (Nat.ne_of_lt hk)] at hmsg

end Marks
section Invariant
variable {δ : Type} {casing : CaseMapping} {validity : Nat} {f f' : ServerFolder} {list : MessageList δ}
  {call : Syncing} {s t : SyncState δ}
variable {msg : ServerMessage} {mark : Nat}

/-- A list with its mark: it has what the messages were like when they last changed, unless they changed above it. -/
structure ListSound (validity : Nat) (f : ServerFolder) (list : MessageList δ) (mark : Nat) : Prop where
  mod_seq : list.mod_seq = some (decimal mark)
  uid_validity : ∀ v ∈ list.uid_validity, v = decimal validity
  mark_le : mark ≤ f.highestModseq
  known : ∀ m ∈ list.messages, Known f mark m.uid m.flags

structure ListingSound (validity : Nat) (f : ServerFolder) (listing : Listing δ) (mark : Nat) : Prop where
  marked : Marked validity f listing.mailbox mark
  known : ∀ m ∈ listing.fetched, Known f mark m.uid m.flags

/-- The flags that a message of the list gets from the answer so far. -/
def patched (call : Syncing) (m : MessageSummaryItem δ) : List JsString := (newFlags call.changed m.uid).getD m.flags

structure CallSound (validity : Nat) (f : ServerFolder) (list : MessageList δ) (call : Syncing) (mark since : Nat) : Prop where
  sound : ListSound validity f list since
  marked : Marked validity f call.mailbox mark
  began : call.since = some since
  uidValidity : ∀ v ∈ call.uidValidity, v = decimal validity
  gone : (call.mailbox.bind (·.exists)).getD 0 = 0 → ∀ m ∈ list.messages, f.messages m.uid = none
  above : ∀ p ∈ call.changed, p.1 < f.uidNext ∧ ∀ msg, f.messages p.1 = some msg → since < msg.modseq
  looked : ∀ m ∈ list.messages, m.uid ∈ call.looked → Known f mark m.uid (patched call m)

structure SyncInv (validity : Nat) (s : SyncState δ) : Prop where
  uids : ∀ uid msg, s.folder.messages uid = some msg → uid < s.folder.uidNext
  cache : ∀ list ∈ s.cache, ∃ mark, ListSound validity s.folder list mark
  client : ∀ list ∈ s.client, ∃ mark, ListSound validity s.folder list mark
  listings : ∀ i listing, s.listings i = some listing → ∃ mark, ListingSound validity s.folder listing mark
  syncing : ∀ call, s.syncing = some call → ∃ list mark since, s.client = some list ∧ CallSound validity s.folder list call mark since

theorem Marked.later {mailbox : Option MailboxObject} (h : Marked validity f mailbox mark) (hlater : Later f f') :
    Marked validity f' mailbox mark :=
  ⟨h.object,h.validity,h.mark_le.trans hlater.highest⟩

theorem ListSound.later (h : ListSound validity f list mark) (hlater : Later f f') : ListSound validity f' list mark :=
  ⟨h.mod_seq,h.uid_validity,h.mark_le.trans hlater.highest,fun m hm => (h.known m hm).later hlater h.mark_le⟩

theorem ListingSound.later {listing : Listing δ} (h : ListingSound validity f listing mark) (hlater : Later f f') :
    ListingSound validity f' listing mark :=
  ⟨h.marked.later hlater,fun m hm => (h.known m hm).later hlater h.marked.mark_le⟩

theorem CallSound.later {mark since : Nat} (h : CallSound validity f list call mark since) (hlater : Later f f') :
    CallSound validity f' list call mark since where
  sound := h.sound.later hlater
  marked := h.marked.later hlater
  began := h.began
  uidValidity := h.uidValidity
  gone hzero m hm := gone_later (h.sound.known m hm).uid_lt hlater (h.gone hzero m hm)
  above p hp := by
    obtain ⟨hlt,habove⟩ := h.above p hp
    refine ⟨hlt.trans_le hlater.uidNext,fun msg hmsg => ?_⟩
    rcases hlater.message p.1 hlt msg hmsg with hsame | ⟨-,hnew⟩
    · exact habove msg hsame
    · exact h.sound.mark_le.trans_lt hnew
  looked m hm hlooked := (h.looked m hm hlooked).later hlater h.marked.mark_le

theorem SyncInv.later (h : SyncInv validity s) (hlater : Later s.folder f')
    (huids : ∀ uid msg, f'.messages uid = some msg → uid < f'.uidNext) :
    SyncInv validity { s with folder := f' } where
  uids := huids
  cache list hlist := (h.cache list hlist).imp fun _ hsound => hsound.later hlater
  client list hlist := (h.client list hlist).imp fun _ hsound => hsound.later hlater
  listings i listing hi := (h.listings i listing hi).imp fun _ hsound => hsound.later hlater
  syncing call hcall := by
    obtain ⟨list,mark,since,hlist,hsound⟩ := h.syncing call hcall
    exact ⟨list,mark,since,hlist,hsound.later hlater⟩

theorem syncInv_initial (h : ∀ uid msg, f.messages uid = some msg → uid < f.uidNext) :
    SyncInv validity (SyncState.initial f : SyncState δ) :=
  ⟨h,nofun,nofun,nofun,nofun⟩

theorem sinceOf_decimal (n : Nat) : sinceOf (some (decimal n)) = some n := by
  have hnumeral : isNumeral (decimal n) = true := by simpa [isNumeral] using ⟨decimal_ne_nil n,decimal_digits n⟩
  rw [sinceOf,Option.filter_some,if_pos hnumeral,Option.map_some,digitsValue_decimal]

theorem uidValidityText_of_marked {mailbox : Option MailboxObject} (h : Marked validity f mailbox mark) :
    ∀ v ∈ uidValidityText mailbox, v = decimal validity := by
  intro v hv
  obtain ⟨n,hn,rfl⟩ := Option.map_eq_some_iff.mp hv
  rw [h.validity n hn]

theorem isStale_false {text : JsString} {client server : Option JsString} (hclient : ∀ v ∈ client, v = text)
    (hserver : ∀ v ∈ server, v = text) :
    isStale client server = false := by
  cases client with
  | none => rfl
  | some v =>
    cases server with
    | none => rfl
    | some w => simp [isStale,hclient v rfl,hserver w rfl]

theorem listSound_of_listing {listing : Listing δ} (h : ListingSound validity f listing mark) (limit : Nat) :
    ListSound validity f (listMessages casing limit listing.mailbox fun _ _ => listing.fetched) mark := by
  have hmod : modSeqText listing.mailbox = some (decimal mark) := by rw [modSeqText,h.marked.object,Option.map_some]
  rw [listMessages]
  split
  · exact ⟨hmod,uidValidityText_of_marked h.marked,h.marked.mark_le,List.forall_mem_nil _⟩
  · refine ⟨hmod,uidValidityText_of_marked h.marked,h.marked.mark_le,fun m hm => ?_⟩
    obtain ⟨msg,hmsg,rfl⟩ := List.mem_map.mp (List.mem_reverse.mp hm)
    exact h.known msg hmsg

theorem known_now {uid mark : Nat} (huids : ∀ uid msg, f.messages uid = some msg → uid < f.uidNext)
    (h : f.messages uid = some msg) : Known f mark uid msg.flags := by
  refine ⟨huids uid msg h,fun msg' hmsg' _ => ?_⟩
  rw [h] at hmsg'
  rw [Option.some.inj hmsg']

theorem newFlags_append_self (changed : List (Nat × List JsString)) (uid : Nat) (flags : List JsString) :
    newFlags (changed ++ [(uid,flags)]) uid = some flags := by
  rw [newFlags,List.filter_append,List.filter_cons_of_pos (by simp),List.filter_nil,List.getLast?_append]
  rfl

theorem newFlags_append_other {uid uid' : Nat} (h : uid' ≠ uid) (changed : List (Nat × List JsString)) (flags : List JsString) :
    newFlags (changed ++ [(uid,flags)]) uid' = newFlags changed uid' := by
  rw [newFlags,List.filter_append,List.filter_cons_of_neg (by simpa using Ne.symm h),List.filter_nil,List.append_nil]
  rfl

theorem mem_of_newFlags {changed : List (Nat × List JsString)} {uid : Nat} {flags : List JsString}
    (h : newFlags changed uid = some flags) :
    (uid,flags) ∈ changed := by
  obtain ⟨p,hp,rfl⟩ := Option.map_eq_some_iff.mp h
  obtain ⟨hmem,hkey⟩ := List.mem_filter.mp (List.mem_of_getLast? hp)
  rwa [← of_decide_eq_true hkey]

/-- The call after the server has looked at one more message. -/
def lookedAt (call : Syncing) (uid : Nat) (msg : ServerMessage) : Syncing :=
  { call with
    looked := uid :: call.looked
    changed := if call.since.getD 0 < msg.modseq then call.changed ++ [(uid,msg.flags)] else call.changed }

theorem patched_lookedAt {mark since uid : Nat} (h : CallSound validity f list call mark since)
    (hmsg : f.messages uid = some msg) {m : MessageSummaryItem δ} (hm : m ∈ list.messages) (huid : m.uid = uid) :
    patched (lookedAt call uid msg) m = msg.flags := by
  subst huid
  rw [patched,lookedAt,h.began,Option.getD_some]
  dsimp only
  split
  · rw [newFlags_append_self,Option.getD_some]
  · rename_i hold
    cases hnew : newFlags call.changed m.uid with
    | none => exact ((h.sound.known m hm).flags_eq msg hmsg (Nat.le_of_not_lt hold)).symm
    | some flags => exact absurd ((h.above _ (mem_of_newFlags hnew)).2 msg hmsg) hold

theorem patched_lookedAt_other {uid : Nat} {m : MessageSummaryItem δ} (h : m.uid ≠ uid) :
    patched (lookedAt call uid msg) m = patched call m := by
  rw [patched,patched,lookedAt]
  dsimp only
  split
  · rw [newFlags_append_other h]
  · rfl

theorem CallSound.look {mark since uid : Nat} (h : CallSound validity f list call mark since)
    (huids : ∀ uid msg, f.messages uid = some msg → uid < f.uidNext) (hmsg : f.messages uid = some msg) :
    CallSound validity f list (lookedAt call uid msg) mark since where
  sound := h.sound
  marked := h.marked
  began := h.began
  uidValidity := h.uidValidity
  gone := h.gone
  above p hp := by
    rw [lookedAt,h.began,Option.getD_some] at hp
    dsimp only at hp
    split at hp
    · rename_i hnew
      rcases List.mem_append.mp hp with hp | hp
      · exact h.above p hp
      · obtain rfl := List.mem_singleton.mp hp
        refine ⟨huids uid msg hmsg,fun msg' hmsg' => ?_⟩
        rw [hmsg] at hmsg'
        rwa [← Option.some.inj hmsg']
    · exact h.above p hp
  looked m hm hlooked := by
    by_cases huid : m.uid = uid
    · rw [patched_lookedAt h hmsg hm huid,huid]
      exact known_now huids hmsg
    · rw [patched_lookedAt_other huid]
      exact h.looked m hm ((List.mem_cons.mp hlooked).resolve_left huid)

theorem known_gone {mark uid : Nat} (hlt : uid < f.uidNext) (h : f.messages uid = none) (flags : List JsString) : Known f mark uid flags :=
  ⟨hlt,fun msg hmsg => by rw [h] at hmsg; cases hmsg⟩

/-- What the client has when the call ends. -/
theorem endSync_sound {mark since : Nat} (h : CallSound validity f list call mark since)
    (hlooked : asksFolder call.mailbox call.since = true → ∀ m ∈ list.messages, f.messages m.uid ≠ none → m.uid ∈ call.looked) :
    ∃ changed, applySync list (syncMessages call.mailbox (fun _ => call.changed) call.since call.uidValidity) =
        some { list with messages := list.messages.map (patchItem changed), mod_seq := some (decimal mark) } ∧
      ∀ m ∈ list.messages, Known f mark m.uid (patchItem changed m).flags ∧
        (f.messages m.uid ≠ none → m.uid ∈ call.looked ∧ (patchItem changed m).flags = patched call m) := by
  have hstale : isStale call.uidValidity (uidValidityText call.mailbox) = false :=
    isStale_false h.uidValidity (uidValidityText_of_marked h.marked)
  have hmod : modSeqText call.mailbox = some (decimal mark) := by rw [modSeqText,h.marked.object,Option.map_some]
  refine ⟨if asksFolder call.mailbox call.since then call.changed else [],?_,fun m hm => ?_⟩
  · rw [syncMessages,hstale,hmod]
    rfl
  · have hlt := (h.sound.known m hm).uid_lt
    split
    · rename_i hasks
      by_cases hgone : f.messages m.uid = none
      · exact ⟨known_gone hlt hgone _,fun hthere => absurd hgone hthere⟩
      · have hmem := hlooked hasks m hm hgone
        exact ⟨h.looked m hm hmem,fun _ => ⟨hmem,rfl⟩⟩
    · rename_i hasks
      have hzero : (call.mailbox.bind (·.exists)).getD 0 = 0 := by
        rw [asksFolder,h.began] at hasks
        simpa using hasks
      exact ⟨known_gone hlt (h.gone hzero m hm) _,fun hthere => absurd (h.gone hzero m hm) hthere⟩

theorem SyncInv.setFlags {uid modseq : Nat} {flags : List JsString} (h : SyncInv validity s)
    (ha : syncAllowed validity s (.setFlags uid flags modseq))
    (hstep : syncStep casing s (.setFlags uid flags modseq) = some t) : SyncInv validity t := by
  obtain ⟨msg,hmsg,rfl⟩ := Option.map_eq_some_iff.mp hstep
  refine h.later (later_setFlags hmsg ha) fun k msg' hmsg' => ?_
  change (if k = uid then some ⟨flags,modseq⟩ else s.folder.messages k) = some msg' at hmsg'
  split at hmsg'
  · rename_i hk
    exact hk ▸ h.uids uid msg hmsg
  · exact h.uids k msg' hmsg'

theorem SyncInv.expunge {uid : Nat} (h : SyncInv validity s)
    (hstep : syncStep casing s (.expunge uid) = some t) : SyncInv validity t := by
  cases hstep
  refine h.later (later_expunge _ uid) fun k msg hmsg => ?_
  change (if k = uid then none else s.folder.messages k) = some msg at hmsg
  split at hmsg
  · cases hmsg
  · exact h.uids k msg hmsg

theorem SyncInv.deliver {flags : List JsString} {modseq : Nat} (h : SyncInv validity s)
    (ha : syncAllowed validity s (.deliver flags modseq))
    (hstep : syncStep casing s (.deliver flags modseq) = some t) : SyncInv validity t := by
  cases hstep
  refine h.later (later_deliver ha) fun k msg hmsg => ?_
  change (if k = s.folder.uidNext then some ⟨flags,modseq⟩ else s.folder.messages k) = some msg at hmsg
  change k < s.folder.uidNext + 1
  split at hmsg
  · omega
  · exact (h.uids k msg hmsg).trans (Nat.lt_succ_self _)

theorem SyncInv.beginList {i : Nat} {mailbox : Option MailboxObject} (h : SyncInv validity s)
    (ha : syncAllowed validity s (.beginList i mailbox))
    (hstep : syncStep casing s (.beginList i mailbox) = some t) : SyncInv validity t := by
  cases hstep
  refine { h with listings := fun k listing hk => ?_ }
  change (if k = i then some ⟨mailbox,[]⟩ else s.listings k) = some listing at hk
  split at hk
  · cases hk
    obtain ⟨mark,hmark⟩ := ha
    exact ⟨mark,hmark,List.forall_mem_nil _⟩
  · exact h.listings k listing hk

theorem SyncInv.readListed {i uid seq : Nat} {bodyStructure : Option MessageStructureObject} {details : δ} (h : SyncInv validity s)
    (hstep : syncStep casing s (.readListed i uid seq bodyStructure details) = some t) : SyncInv validity t := by
  obtain ⟨listing,hi,hstep⟩ := Option.bind_eq_some_iff.mp hstep
  obtain ⟨msg,hmsg,hstep⟩ := Option.bind_eq_some_iff.mp hstep
  cases hstep
  refine { h with listings := fun k listing' hk => ?_ }
  change (if k = i then _ else s.listings k) = some listing' at hk
  split at hk
  · cases hk
    obtain ⟨mark,hmark,hknown⟩ := h.listings i listing hi
    refine ⟨mark,hmark,fun m hm => ?_⟩
    rcases List.mem_append.mp hm with hm | hm
    · exact hknown m hm
    · obtain rfl := List.mem_singleton.mp hm
      exact known_now h.uids hmsg
  · exact h.listings k listing' hk

theorem SyncInv.endList {i limit : Nat} {opened : Bool} (h : SyncInv validity s)
    (hstep : syncStep casing s (.endList i limit opened) = some t) : SyncInv validity t := by
  obtain ⟨listing,hi,hstep⟩ := Option.bind_eq_some_iff.mp hstep
  cases hstep
  obtain ⟨mark,hmark⟩ := h.listings i listing hi
  have hlist : ListSound validity s.folder (listMessages casing limit listing.mailbox fun _ _ => listing.fetched) mark :=
    listSound_of_listing hmark limit
  refine ⟨h.uids,fun list hcached => ?_,fun list hclient => ?_,fun k listing' hk => ?_,fun call hcall => ?_⟩
  · cases hcached
    exact ⟨mark,hlist⟩
  · change (if opened && s.syncing.isNone then some _ else s.client) = some list at hclient
    split at hclient
    · cases hclient
      exact ⟨mark,hlist⟩
    · exact h.client list hclient
  · change (if k = i then none else s.listings k) = some listing' at hk
    split at hk
    · cases hk
    · exact h.listings k listing' hk
  · have hcall : s.syncing = some call := hcall
    obtain ⟨list,mark',since,hclient,hsound⟩ := h.syncing call hcall
    refine ⟨list,mark',since,?_,hsound⟩
    change (if opened && s.syncing.isNone then some _ else s.client) = some list
    rw [hcall,if_neg (by simp)]
    exact hclient

theorem SyncInv.openCached (h : SyncInv validity s) (hstep : syncStep casing s .openCached = some t) : SyncInv validity t := by
  rw [syncStep] at hstep
  split at hstep
  · rename_i hidle
    obtain ⟨list,hlist,rfl⟩ := Option.map_eq_some_iff.mp hstep
    refine { h with client := fun list' hclient => ?_, syncing := fun call hcall => ?_ }
    · cases hclient
      exact h.cache list hlist
    · have hcall : s.syncing = some call := hcall
      rw [hcall] at hidle
      cases hidle
  · cases hstep

theorem SyncInv.beginSync {mailbox : Option MailboxObject} (h : SyncInv validity s) (ha : syncAllowed validity s (.beginSync mailbox))
    (hstep : syncStep casing s (.beginSync mailbox) = some t) : SyncInv validity t := by
  obtain ⟨list,hclient,hstep⟩ := Option.bind_eq_some_iff.mp hstep
  obtain ⟨⟨mark,hmark⟩,hthere⟩ := ha
  split at hstep
  · cases hstep
    refine { h with syncing := fun call hcall => ?_ }
    cases hcall
    obtain ⟨since,hsound⟩ := h.client list hclient
    refine ⟨list,mark,since,hclient,hsound,hmark,?_,fun v hv => ?_,fun hzero m hm => ?_,
      List.forall_mem_nil _,fun m _ hlooked => absurd hlooked List.not_mem_nil⟩
    · rw [hsound.mod_seq]
      exact sinceOf_decimal since
    · exact hsound.uid_validity v (Option.mem_filter_iff.mp hv).1
    · by_contra hmsg
      exact hthere list hclient m hm hmsg hzero
  · cases hstep

theorem SyncInv.readChanged {uid : Nat} (h : SyncInv validity s)
    (hstep : syncStep casing s (.readChanged uid) = some t) : SyncInv validity t := by
  obtain ⟨call,hcall,hstep⟩ := Option.bind_eq_some_iff.mp hstep
  obtain ⟨msg,hmsg,hstep⟩ := Option.bind_eq_some_iff.mp hstep
  split at hstep
  · cases hstep
    refine { h with syncing := fun call' hcall' => ?_ }
    cases hcall'
    obtain ⟨list,mark,since,hclient,hsound⟩ := h.syncing call hcall
    exact ⟨list,mark,since,hclient,hsound.look h.uids hmsg⟩
  · cases hstep

theorem SyncInv.endSync (h : SyncInv validity s) (ha : syncAllowed validity s .endSync)
    (hstep : syncStep casing s .endSync = some t) : SyncInv validity t := by
  obtain ⟨call,hcall,hstep⟩ := Option.bind_eq_some_iff.mp hstep
  obtain ⟨list,hclient,hstep⟩ := Option.bind_eq_some_iff.mp hstep
  cases hstep
  obtain ⟨list',mark,since,hclient',hsound⟩ := h.syncing call hcall
  obtain rfl : list = list' := Option.some.inj (hclient.symm.trans hclient')
  obtain ⟨changed,happlied,hknown⟩ := endSync_sound hsound fun hasks => ha call hcall hasks list hclient
  refine { h with client := fun list' hlist' => ?_, syncing := nofun }
  obtain rfl := Option.some.inj (happlied.symm.trans hlist')
  refine ⟨mark,rfl,hsound.sound.uid_validity,hsound.marked.mark_le,fun m hm => ?_⟩
  obtain ⟨m,hmem,rfl⟩ := List.mem_map.mp hm
  exact (hknown m hmem).1

theorem syncInv_step {a : SyncAction δ} (h : SyncInv validity s) (ha : syncAllowed validity s a) (hstep : syncStep casing s a = some t) :
    SyncInv validity t := by
  cases a with
  | setFlags uid flags modseq => exact h.setFlags ha hstep
  | expunge uid => exact h.expunge hstep
  | deliver flags modseq => exact h.deliver ha hstep
  | bust =>
    cases hstep
    exact { h with cache := nofun }
  | beginList i mailbox => exact h.beginList ha hstep
  | readListed i uid seq bodyStructure details => exact h.readListed hstep
  | endList i limit opened => exact h.endList hstep
  | openCached => exact h.openCached hstep
  | beginSync mailbox => exact h.beginSync ha hstep
  | readChanged uid => exact h.readChanged hstep
  | endSync => exact h.endSync ha hstep

/-- What every run keeps. -/
theorem syncInv_of_trace {actions : List (SyncAction δ)} (hfolder : ∀ uid msg, f.messages uid = some msg → uid < f.uidNext)
    (h : Trace (syncStep casing) (syncAllowed validity) (.initial f) actions s) : SyncInv validity s :=
  h.invariant (fun _ _ _ hinv ha hstep => syncInv_step hinv ha hstep) (syncInv_initial hfolder)

end Invariant
section Moments
variable {δ : Type} {casing : CaseMapping} {validity : Nat} {f : ServerFolder} {list : MessageList δ}
  {call : Syncing} {s t u v : SyncState δ}
  {during before : List (SyncAction δ)} {mailbox : Option MailboxObject}

/-- While a call is under way the client keeps its list, and the call only looks at messages. -/
theorem step_during {a : SyncAction δ} (hclient : s.client = some list) (hcall : s.syncing = some call) (ha : a ≠ .endSync)
    (hstep : syncStep casing s a = some t) : t.client = some list ∧
      (t.syncing = some call ∨ ∃ uid msg, s.folder.messages uid = some msg ∧ t.syncing = some (lookedAt call uid msg)) := by
  have hbusy : s.syncing.isNone = false := by rw [hcall]; rfl
  cases a with
  | setFlags uid flags modseq =>
    obtain ⟨msg,-,rfl⟩ := Option.map_eq_some_iff.mp hstep
    exact ⟨hclient,.inl hcall⟩
  | expunge | deliver | bust | beginList =>
    cases hstep
    exact ⟨hclient,.inl hcall⟩
  | readListed =>
    obtain ⟨listing,-,hstep⟩ := Option.bind_eq_some_iff.mp hstep
    obtain ⟨msg,-,hstep⟩ := Option.bind_eq_some_iff.mp hstep
    cases hstep
    exact ⟨hclient,.inl hcall⟩
  | endList =>
    obtain ⟨listing,-,hstep⟩ := Option.bind_eq_some_iff.mp hstep
    cases hstep
    refine ⟨?_,.inl hcall⟩
    rw [hbusy,Bool.and_false]
    exact hclient
  | openCached =>
    rw [syncStep,hbusy] at hstep
    cases hstep
  | beginSync =>
    obtain ⟨list,-,hstep⟩ := Option.bind_eq_some_iff.mp hstep
    rw [hbusy] at hstep
    cases hstep
  | readChanged uid =>
    obtain ⟨call',hcall',hstep⟩ := Option.bind_eq_some_iff.mp hstep
    obtain ⟨msg,hmsg,hstep⟩ := Option.bind_eq_some_iff.mp hstep
    obtain rfl : call = call' := Option.some.inj (hcall.symm.trans hcall')
    split at hstep
    · cases hstep
      exact ⟨hclient,.inr ⟨uid,msg,hmsg,rfl⟩⟩
    · cases hstep
  | endSync => exact absurd rfl ha

/-- The flags of the answer are those of some moment of the call. -/
theorem patched_on_the_way (ht : SyncInv validity t) (hclient : t.client = some list)
    (hcall : t.syncing = some call) (hnone : call.looked = [])
    (h : Trace (syncStep casing) (syncAllowed validity) t during u) (hopen : .endSync ∉ during) :
    u.client = some list ∧ ∃ call', u.syncing = some call' ∧ ∀ m ∈ list.messages, m.uid ∈ call'.looked →
      OnTheWay (syncStep casing) (syncAllowed validity) t during fun moment =>
      (moment.folder.messages m.uid).map (·.flags) = some (patched call' m) := by
  induction h with
  | nil => exact ⟨hclient,call,hcall,fun m _ hlooked => absurd hlooked (by rw [hnone]; exact List.not_mem_nil)⟩
  | @snoc u v actions a htrace ha hstep ih =>
    rw [List.mem_append,not_or] at hopen
    obtain ⟨hlist,call',hcall',hlooked⟩ := ih hopen.1
    have hopen : a ≠ .endSync := fun he => hopen.2 (List.mem_singleton.mpr he.symm)
    obtain ⟨hv,hsame | ⟨uid,msg,hmsg,hlook⟩⟩ := step_during hlist hcall' hopen hstep
    · exact ⟨hv,call',hsame,fun m hm hmem => (hlooked m hm hmem).snoc a⟩
    · refine ⟨hv,lookedAt call' uid msg,hlook,fun m hm hmem => ?_⟩
      by_cases huid : m.uid = uid
      · have hu : SyncInv validity u := htrace.invariant (fun _ _ _ hinv ha hstep => syncInv_step hinv ha hstep) ht
        obtain ⟨list',mark,since,hlist',hsound⟩ := hu.syncing call' hcall'
        obtain rfl : list = list' := Option.some.inj (hlist.symm.trans hlist')
        refine OnTheWay.snoc (htrace.onTheWay ?_) a
        rw [patched_lookedAt hsound hmsg hm huid,huid,hmsg]
        rfl
      · rw [patched_lookedAt_other huid]
        exact (hlooked m hm ((List.mem_cons.mp hmem).resolve_left huid)).snoc a

/-- A call of `syncMessages` in any run: afterwards the client has, for every message it lists that is still there, the
flags of a moment since the call began. -/
theorem sync_keeps_up (hfolder : ∀ uid msg, f.messages uid = some msg → uid < f.uidNext)
    (hbefore : Trace (syncStep casing) (syncAllowed validity) (.initial f) before s)
    (hbegin : syncAllowed validity s (.beginSync mailbox)) (hbegun : syncStep casing s (.beginSync mailbox) = some t)
    (hduring : Trace (syncStep casing) (syncAllowed validity) t during u) (hopen : .endSync ∉ during)
    (hend : syncAllowed validity u .endSync) (hended : syncStep casing u .endSync = some v) :
    ∃ old list, s.client = some old ∧ v.client = some list ∧ list.messages.map (·.uid) = old.messages.map (·.uid) ∧
      ∀ m ∈ list.messages, v.folder.messages m.uid ≠ none → OnTheWay (syncStep casing) (syncAllowed validity) t during
        fun moment => (moment.folder.messages m.uid).map (·.flags) = some m.flags := by
  have hs : SyncInv validity s := syncInv_of_trace hfolder hbefore
  have ht : SyncInv validity t := syncInv_step hs hbegin hbegun
  obtain ⟨old,hold,hbegun⟩ := Option.bind_eq_some_iff.mp hbegun
  split at hbegun
  · cases hbegun
    obtain ⟨hclient,call,hcall,hlooked⟩ := patched_on_the_way ht hold rfl rfl hduring hopen
    have hu : SyncInv validity u := hduring.invariant (fun _ _ _ hinv ha hstep => syncInv_step hinv ha hstep) ht
    obtain ⟨list',mark,since,hclient',hsound⟩ := hu.syncing call hcall
    obtain rfl : old = list' := Option.some.inj (hclient.symm.trans hclient')
    obtain ⟨changed,happlied,hknown⟩ := endSync_sound hsound fun hasks => hend call hcall hasks old hclient
    obtain ⟨call',hcall',hended⟩ := Option.bind_eq_some_iff.mp hended
    obtain rfl : call = call' := Option.some.inj (hcall.symm.trans hcall')
    obtain ⟨list',hclient',hended⟩ := Option.bind_eq_some_iff.mp hended
    obtain rfl : old = list' := Option.some.inj (hclient.symm.trans hclient')
    cases hended
    refine ⟨old,_,hold,happlied,by rw [List.map_map]; rfl,fun m hm hthere => ?_⟩
    obtain ⟨m,hmem,rfl⟩ := List.mem_map.mp hm
    obtain ⟨hlook,hflags⟩ := (hknown m hmem).2 hthere
    rw [hflags]
    exact hlooked m hmem hlook
  · cases hbegun

def oneMessage : ServerFolder := ⟨fun uid => if uid = 1 then some ⟨[],1⟩ else none,1,2⟩

def mailboxAt (mark : Nat) : Option MailboxObject := some ⟨some 7,some mark,some 1⟩

def stepAll (s : SyncState Unit) (actions : List (SyncAction Unit)) : SyncState Unit :=
  actions.foldl (fun s a => (syncStep asciiCase s a).getD s) s

/-- The client has listed the folder, and the message has been read elsewhere. -/
def seenMeanwhile : SyncState Unit :=
  stepAll (.initial oneMessage) [.beginList 0 (mailboxAt 1),.readListed 0 1 1 none (),.endList 0 50 true,.setFlags 1 [js "\\Seen"] 2]

/-- The message is read elsewhere before the call and starred during it. -/
theorem starred_meanwhile : ∃ (before during : List (SyncAction Unit)) (s t u v : SyncState Unit),
    Trace (syncStep asciiCase) (syncAllowed 7) (.initial oneMessage) before s ∧ Trace (syncStep asciiCase) (syncAllowed 7) t during u ∧
    ∃ old list, s.client = some old ∧ v.client = some list ∧ list.messages.map (·.uid) = old.messages.map (·.uid) ∧
      ∀ m ∈ list.messages, v.folder.messages m.uid ≠ none → OnTheWay (syncStep asciiCase) (syncAllowed 7) t during
        fun moment => (moment.folder.messages m.uid).map (·.flags) = some m.flags := by
  have hmarked (f : ServerFolder) (mark : Nat) (h : mark ≤ f.highestModseq) : Marked 7 f (mailboxAt mark) mark :=
    ⟨rfl,fun v hv => (Option.some.inj hv).symm,h⟩
  have hfolder : ∀ uid msg, oneMessage.messages uid = some msg → uid < oneMessage.uidNext := by
    intro uid msg hmsg
    change (if uid = 1 then some (⟨[],1⟩ : ServerMessage) else none) = some msg at hmsg
    split at hmsg
    · rename_i huid
      rw [huid]
      decide
    · cases hmsg
  have hinitial : Trace (syncStep asciiCase) (syncAllowed 7) (.initial oneMessage : SyncState Unit) [] _ := .nil _
  have hlisting := hinitial.snoc (SyncAction.beginList 0 (mailboxAt 1)) ⟨1,hmarked _ 1 le_rfl⟩ rfl
  have hread := hlisting.snoc (SyncAction.readListed 0 1 1 none ()) trivial rfl
  have hlisted := hread.snoc (SyncAction.endList 0 50 true) trivial rfl
  have hseen : Trace (syncStep asciiCase) (syncAllowed 7) (.initial oneMessage) _ seenMeanwhile :=
    hlisted.snoc (SyncAction.setFlags 1 [js "\\Seen"] 2) (Nat.lt_succ_self 1) rfl
  have hcalled : Trace (syncStep asciiCase) (syncAllowed 7) (stepAll seenMeanwhile [.beginSync (mailboxAt 2)]) [] _ := .nil _
  have hstarred := hcalled.snoc (SyncAction.setFlags 1 [js "\\Seen",js "\\Flagged"] 3) (Nat.lt_succ_self 2) rfl
  have hlooked := hstarred.snoc (SyncAction.readChanged 1) trivial rfl
  have hallowed : syncAllowed 7 seenMeanwhile (.beginSync (mailboxAt 2)) := ⟨⟨2,hmarked _ 2 le_rfl⟩,fun _ _ _ _ _ => by decide⟩
  refine ⟨_,_,_,_,_,_,hseen,hlooked,sync_keeps_up hfolder hseen hallowed rfl hlooked ?_ ?_ rfl⟩
  · simp
  · intro call hcall _ list hlist m hm _
    cases hcall
    cases hlist
    obtain rfl := List.mem_singleton.mp hm
    exact List.mem_singleton.mpr rfl

end Moments
end JustMail.Webmail.Search
