import JustMail.Foundation.Sequences
import JustMail.Webmail.SearchQuery

/-! A search in a folder (`webmail.service.ts`): the newest of the messages that the server finds, and of these the
ones with an attachment when only they are asked for. -/
namespace JustMail.Webmail.Search
open Foundation

/-- `MessageStructureObject`, with the file name of its disposition. -/
inductive MessageStructureObject where
  | node (disposition filename : Option JsString) (childNodes : List MessageStructureObject)

section Structures
variable (casing : CaseMapping)

/-- What makes a part an attachment. -/
def isMarked (disposition filename : Option JsString) : Bool :=
  if casing.toLowerCase (disposition.getD []) = js "attachment" then true else filename.getD [] ≠ []

mutual
def structureHasAttachments : MessageStructureObject → Bool
  | .node disposition filename childNodes =>
    if childNodes ≠ [] then someHasAttachments childNodes else isMarked casing disposition filename

/-- `childNodes.some(structureHasAttachments)`. -/
def someHasAttachments : List MessageStructureObject → Bool
  | [] => false
  | child :: childNodes => structureHasAttachments child || someHasAttachments childNodes
end

mutual
/-- A part is an attachment, be it a leaf or, like an attached message, one with parts of its own. -/
def containsAttachment : MessageStructureObject → Bool
  | .node disposition filename childNodes => isMarked casing disposition filename || someContains childNodes

def someContains : List MessageStructureObject → Bool
  | [] => false
  | child :: childNodes => containsAttachment child || someContains childNodes
end

mutual
theorem contains_of_has : ∀ node, structureHasAttachments casing node = true → containsAttachment casing node = true
  | .node disposition filename childNodes => by
    intro h
    rw [structureHasAttachments] at h
    rw [containsAttachment,Bool.or_eq_true]
    split at h
    · exact .inr (someContains_of_some childNodes h)
    · exact .inl h

theorem someContains_of_some : ∀ childNodes, someHasAttachments casing childNodes = true → someContains casing childNodes = true
  | [] => fun h => h
  | child :: childNodes => by
    intro h
    rw [someHasAttachments,Bool.or_eq_true] at h
    rw [someContains,Bool.or_eq_true]
    exact h.imp (contains_of_has child) (someContains_of_some childNodes)
end

end Structures
section Messages
variable {δ : Type}

/-- A message as it is fetched; `details` is what the envelope, the size, the dates and the thread come from. -/
structure FetchedMessage (δ : Type) where
  uid : Nat
  seq : Nat
  flags : List JsString
  bodyStructure : Option MessageStructureObject
  details : δ

structure MessageSummaryItem (δ : Type) where
  uid : Nat
  seq : Nat
  flags : List JsString
  has_attachments : Bool
  details : δ

structure MessageList (δ : Type) where
  messages : List (MessageSummaryItem δ)
  total : Nat
  uid_validity : Option JsString
  mod_seq : Option JsString

/-- What the client says of the open mailbox. -/
structure MailboxObject where
  uidValidity : Option Nat
  highestModseq : Option Nat
  «exists» : Option Nat

def uidValidityText (mb : Option MailboxObject) : Option JsString := (mb.bind (·.uidValidity)).map decimal
def modSeqText (mb : Option MailboxObject) : Option JsString := (mb.bind (·.highestModseq)).map decimal

structure ImapClient (δ : Type) where
  mailbox : Option MailboxObject
  search : SearchObject → List Nat
  fetch : List Nat → List (FetchedMessage δ)

variable (casing : CaseMapping) (dates : DateParser)

def summaryOf (msg : FetchedMessage δ) : MessageSummaryItem δ where
  uid := msg.uid
  seq := msg.seq
  flags := msg.flags
  has_attachments := match msg.bodyStructure with
    | none => false
    | some node => structureHasAttachments casing node
  details := msg.details

/-- The rows of a list, the last fetched first. -/
def collectSummaries (fetched : List (FetchedMessage δ)) : List (MessageSummaryItem δ) := (fetched.map (summaryOf casing)).reverse

/-- `WEBMAIL_MESSAGE_LIST_MAX`, a positive integer. -/
abbrev ListMax := { n : Nat // 0 < n }

def search (max : ListMax) (client : ImapClient δ) (input : SearchRequest) : MessageList δ :=
  let uid_validity := uidValidityText client.mailbox
  let mod_seq := modSeqText client.mailbox
  let (criteria,hasAttachment) := buildSearchCriteria casing dates input
  let matched := client.search criteria
  if matched = [] then ⟨[],0,uid_validity,mod_seq⟩
  else
    let uids := sliceLast max.val matched
    let items := collectSummaries casing (client.fetch uids)
    let items := if hasAttachment then items.filter (·.has_attachments) else items
    ⟨items,items.length,uid_validity,mod_seq⟩

end Messages
section Folders
variable {δ : Type} {casing : CaseMapping} {dates : DateParser} {satisfies : SearchObject → FetchedMessage δ → Bool}
  {input : SearchRequest}
  {max : ListMax}

structure Folder (δ : Type) where
  messages : List (FetchedMessage δ)
  ascending : (messages.map (·.uid)).Pairwise (· < ·)

theorem Folder.nodup (folder : Folder δ) : (folder.messages.map (·.uid)).Nodup := folder.ascending.imp Nat.ne_of_lt

/-- A client of a server with this folder: it finds what satisfies the criteria and fetches what it is asked for, both in
ascending order. -/
def Folder.client (folder : Folder δ) (satisfies : SearchObject → FetchedMessage δ → Bool) (mailbox : Option MailboxObject) :
    ImapClient δ where
  mailbox
  search criteria := (folder.messages.filter (satisfies criteria)).map (·.uid)
  fetch uids := folder.messages.filter fun msg => msg.uid ∈ uids

def hasAttachment (casing : CaseMapping) (msg : FetchedMessage δ) : Bool := (summaryOf casing msg).has_attachments

/-- A part of the message is an attachment. -/
def Attached (casing : CaseMapping) (msg : FetchedMessage δ) : Bool := msg.bodyStructure.any (containsAttachment casing)

theorem attached_of_has {msg : FetchedMessage δ} (h : hasAttachment casing msg = true) : Attached casing msg = true := by
  cases hstructure : msg.bodyStructure with
  | none => simp [hasAttachment,summaryOf,hstructure] at h
  | some node =>
    rw [hasAttachment,summaryOf,hstructure] at h
    rw [Attached,hstructure]
    exact contains_of_has casing node h

/-- The messages that satisfy the criteria, newest first. -/
def Folder.matching (folder : Folder δ) (satisfies : SearchObject → FetchedMessage δ → Bool) (criteria : SearchObject) :
    List (FetchedMessage δ) :=
  (folder.messages.filter (satisfies criteria)).reverse

/-- The newest of the messages that are asked for. -/
def Folder.newest (folder : Folder δ) (casing : CaseMapping) (dates : DateParser)
    (satisfies : SearchObject → FetchedMessage δ → Bool) (max : ListMax)
    (input : SearchRequest) : List (FetchedMessage δ) :=
  let (criteria,hasAttachment) := buildSearchCriteria casing dates input
  let found := folder.matching satisfies criteria
  (if hasAttachment then found.filter (Attached casing) else found).take max.val

/-- The rows of the newest messages that are found. -/
theorem collectSummaries_window (folder : Folder δ) (mailbox : Option MailboxObject) (criteria : SearchObject) :
    collectSummaries casing
      ((folder.client satisfies mailbox).fetch (sliceLast max.val ((folder.client satisfies mailbox).search criteria))) =
      ((folder.matching satisfies criteria).take max.val).map (summaryOf casing) := by
  have hsublist : (sliceLast max.val (folder.messages.filter (satisfies criteria))).Sublist folder.messages :=
    (sliceLast_sublist max.val _).trans List.filter_sublist
  have hfetched : (folder.client satisfies mailbox).fetch (sliceLast max.val ((folder.client satisfies mailbox).search criteria)) =
      sliceLast max.val (folder.messages.filter (satisfies criteria)) := by
    change folder.messages.filter
      (fun msg => decide (msg.uid ∈ sliceLast max.val ((folder.messages.filter (satisfies criteria)).map (·.uid)))) = _
    rw [sliceLast_map]
    exact filter_key_mem hsublist folder.nodup
  rw [collectSummaries,hfetched,← List.map_reverse,reverse_sliceLast max.property]
  rfl

/-- What is found, in the newest window. -/
theorem search_messages (folder : Folder δ) (mailbox : Option MailboxObject) :
    (search casing dates max (folder.client satisfies mailbox) input).messages =
      (if (buildSearchCriteria casing dates input).2 then
          ((folder.matching satisfies (buildSearchCriteria casing dates input).1).take max.val).filter (hasAttachment casing)
        else (folder.matching satisfies (buildSearchCriteria casing dates input).1).take max.val).map (summaryOf casing) := by
  rw [search]
  dsimp only
  split
  · rename_i hnone
    have hempty : folder.matching satisfies (buildSearchCriteria casing dates input).1 = [] := by
      rw [Folder.matching,List.reverse_eq_nil_iff]
      exact List.map_eq_nil_iff.mp hnone
    rw [hempty]
    simp
  · rw [collectSummaries_window]
    dsimp only
    split
    · rw [List.filter_map]
      rfl
    · rfl

theorem summaryOf_injective_on {l l' : List (FetchedMessage δ)} (folder : Folder δ) (hl : l ⊆ folder.messages) (hl' : l' ⊆ folder.messages)
    (h : l.map (summaryOf casing) = l'.map (summaryOf casing)) : l = l' := by
  induction l generalizing l' with
  | nil => exact (List.map_eq_nil_iff.mp h.symm).symm
  | cons m l ih =>
    cases l' with
    | nil => cases h
    | cons m' l' =>
      obtain ⟨hm,hl⟩ := List.cons_subset.mp hl
      obtain ⟨hm',hl'⟩ := List.cons_subset.mp hl'
      obtain ⟨hfirst,hrest⟩ := List.cons.inj h
      rw [List.inj_on_of_nodup_map folder.nodup hm hm' (congrArg MessageSummaryItem.uid hfirst),ih hl hl' hrest]

/-- When the window loses nothing: every attachment in it is seen, and behind it there is none, unless everything in it
has one. -/
@[mk_iff] structure Complete (casing : CaseMapping) (max : ListMax) (found : List (FetchedMessage δ)) : Prop where
  seen : ∀ m ∈ found.take max.val, Attached casing m = true → hasAttachment casing m = true
  behind : (∃ m ∈ found.drop max.val, Attached casing m = true) → ∀ m ∈ found.take max.val, Attached casing m = true

theorem search_newest_iff (casing : CaseMapping) (dates : DateParser) (max : ListMax) (folder : Folder δ)
    (satisfies : SearchObject → FetchedMessage δ → Bool) (mailbox : Option MailboxObject) (input : SearchRequest) :
    (search casing dates max (folder.client satisfies mailbox) input).messages =
        (folder.newest casing dates satisfies max input).map (summaryOf casing) ↔
      ((buildSearchCriteria casing dates input).2 = true →
        Complete casing max (folder.matching satisfies (buildSearchCriteria casing dates input).1)) := by
  have hfolder : folder.matching satisfies (buildSearchCriteria casing dates input).1 ⊆ folder.messages := fun m hm =>
    (List.mem_filter.mp (List.mem_reverse.mp hm)).1
  rw [search_messages,Folder.newest]
  dsimp only
  cases hon : (buildSearchCriteria casing dates input).2 with
  | false => simp
  | true =>
    rw [if_pos rfl,if_pos rfl]
    rw [complete_iff,← filter_take_eq_iff fun m => attached_of_has]
    refine ⟨fun h _ => summaryOf_injective_on folder ?_ ?_ h,fun h => congrArg _ (h rfl)⟩
    · exact fun m hm => hfolder ((List.take_subset _ _) (List.mem_filter.mp hm).1)
    · exact fun m hm => hfolder (List.mem_filter.mp (List.take_subset _ _ hm)).1

/-- A message with a file, and a newer one without. -/
def olderFile : Folder Unit := ⟨[⟨1,1,[],some (.node (some (js "attachment")) (some (js "a.pdf")) []),()⟩,⟨2,2,[],none,()⟩],by decide⟩

/-- `?q=report&has_attachment=true`. -/
def withFiles : SearchRequest := { withoutFiles with q := js "report", has_attachment := some true, q_length := by decide }

/-- A window of one message holds the newer, and the search ends with nothing. -/
theorem older_file_lost :
    (search asciiCase isoParser ⟨1,Nat.one_pos⟩ (olderFile.client (fun _ _ => true) none) withFiles).messages.map (·.uid) = [] ∧
    (olderFile.newest asciiCase isoParser (fun _ _ => true) ⟨1,Nat.one_pos⟩ withFiles).map (·.uid) = [1] ∧
    ¬∀ max (folder : Folder Unit) satisfies mailbox input,
    (search asciiCase isoParser max (folder.client satisfies mailbox) input).messages =
      (folder.newest asciiCase isoParser satisfies max input).map (summaryOf asciiCase) := by
  have hfound : (search asciiCase isoParser ⟨1,Nat.one_pos⟩ (olderFile.client (fun _ _ => true) none) withFiles).messages.map
    (·.uid) = [] := by decide
  have hnewest : (olderFile.newest asciiCase isoParser (fun _ _ => true) ⟨1,Nat.one_pos⟩ withFiles).map (·.uid) = [1] := by decide
  refine ⟨hfound,hnewest,fun h => ?_⟩
  have hsame := congrArg (List.map (·.uid)) (h ⟨1,Nat.one_pos⟩ olderFile (fun _ _ => true) none withFiles)
  rw [hfound,List.map_map] at hsame
  exact absurd (hsame.trans hnewest) (by decide)

end Folders
end JustMail.Webmail.Search
