import JustMail.Foundation.Decimal

/-! Conversation ids (`threading.ts`): the first id of the References chain, or the
normalised subject. -/
namespace JustMail.Webmail.Threading
open Foundation

section Subjects
variable (cm : CaseMapping)

/-- The words of `SUBJECT_PREFIX`, in the order of its alternatives. -/
def replyWords : List JsString := ["re","fwd","fw","aw","wg","sv","vs","antwort","rif","res"].map js

def stripWord (word s : JsString) : Option JsString :=
  if (s.take word.length).map asciiLower = word then some (s.drop word.length) else none

/-- `(\[\d+\])?`, which takes a counter where there is one. -/
def stripCounter (s : JsString) : JsString :=
  if s.head? = some (unit '[') then
    let digits := s.tail.takeWhile isDigit
    let rest := s.tail.dropWhile isDigit
    if digits ≠ [] ∧ rest.head? = some (unit ']') then rest.tail else s
  else s

/-- One alternative of `SUBJECT_PREFIX`, behind the leading white space. -/
def stripReply (s word : JsString) : Option JsString :=
  (stripWord word s).bind fun rest =>
    let rest := stripCounter rest
    if rest.head? = some (unit ':') then some (trimStart rest.tail) else none

/-- `s.replace(SUBJECT_PREFIX, "")`. -/
def replacePrefix (s : JsString) : JsString := (replyWords.findSome? (stripReply (trimStart s))).getD s

/-- The loop until nothing changes. Every change shortens the text. -/
def stripPrefixes : Nat → JsString → JsString
  | 0, s => s
  | fuel+1, s => if replacePrefix s = s then s else stripPrefixes fuel (replacePrefix s)

/-- `s.replace(/\s+/g, " ")`. -/
def collapseSpaces : JsString → JsString
  | [] => []
  | c :: s =>
    if isSpace c then if s.head?.any isSpace then collapseSpaces s else unit ' ' :: collapseSpaces s
    else c :: collapseSpaces s

def normalizeSubject (subject : Option JsString) : JsString :=
  let s := trim (subject.getD [])
  trim (collapseSpaces (cm.toLowerCase (stripPrefixes s.length s)))

private theorem stripCounter_length (s : JsString) : (stripCounter s).length ≤ s.length := by
  rw [stripCounter]
  split
  · dsimp only
    split
    · have htail := (List.dropWhile_suffix isDigit (l := s.tail)).length_le
      simp only [List.length_tail] at htail ⊢
      omega
    · exact le_rfl
  · exact le_rfl

private theorem stripReply_length {s word rest : JsString} (h : stripReply s word = some rest) :
    rest.length < s.length := by
  obtain ⟨behind,hbehind,hrest⟩ := Option.bind_eq_some_iff.mp h
  have hword : behind.length ≤ s.length := by
    rw [stripWord] at hbehind
    split at hbehind
    · cases hbehind
      simp
    · cases hbehind
  have hcounter := stripCounter_length behind
  dsimp only at hrest
  split at hrest
  · rename_i hcolon
    cases hrest
    have htrim := (List.dropWhile_suffix isSpace (l := (stripCounter behind).tail)).length_le
    have hne : stripCounter behind ≠ [] := by
      intro he
      simp [he] at hcolon
    have hpos := List.length_pos_of_ne_nil hne
    rw [List.length_tail] at htrim
    change ((stripCounter behind).tail.dropWhile isSpace).length < _
    omega
  · cases hrest

private theorem replacePrefix_length {s : JsString} (h : replacePrefix s ≠ s) :
    (replacePrefix s).length < s.length := by
  rw [replacePrefix] at h ⊢
  cases hfind : replyWords.findSome? (stripReply (trimStart s)) with
  | none => simp [hfind] at h
  | some rest =>
    obtain ⟨word,-,hword⟩ := List.exists_of_findSome?_eq_some hfind
    have hlt := stripReply_length hword
    have htrim := (List.dropWhile_suffix isSpace (l := s)).length_le
    change (trimStart s).length ≤ _ at htrim
    rw [Option.getD_some]
    omega

/-- The fuel is enough: what the loop leaves has no prefix. -/
theorem replacePrefix_stripPrefixes (fuel : Nat) (s : JsString) (h : s.length ≤ fuel) :
    replacePrefix (stripPrefixes fuel s) = stripPrefixes fuel s := by
  induction fuel generalizing s with
  | zero =>
    rw [List.length_eq_zero_iff.mp (Nat.le_zero.mp h)]
    rfl
  | succ fuel ih =>
    rw [stripPrefixes]
    split
    · assumption
    · rename_i hne
      have hlt := replacePrefix_length hne
      exact ih _ (by omega)

end Subjects

section Threads
variable (cm : CaseMapping) (sha1Hex : JsString → JsString)

structure ThreadInput where
  nativeThreadId : Option JsString
  messageId : Option JsString
  inReplyTo : Option JsString
  references : Option (List JsString)
  subject : Option JsString

def shortHash (input : JsString) : JsString := (sha1Hex input).take 16

/-- `refs[0] ?? input.inReplyTo ?? input.messageId ?? null`. -/
def rootOf (input : ThreadInput) : Option JsString :=
  (input.references.getD []).head? <|> input.inReplyTo <|> input.messageId

/-- An empty text is as good as none. -/
def truthy (s : Option JsString) : Option JsString := s.filter (· ≠ [])

def computeThreadId (input : ThreadInput) : Option JsString :=
  match truthy input.nativeThreadId with
  | some id => some id
  | none =>
    match truthy (rootOf input) with
    | some root => some (js "r:" ++ shortHash sha1Hex (trim root))
    | none =>
      let subject := normalizeSubject cm input.subject
      if subject = [] then none else some (js "s:" ++ shortHash sha1Hex subject)

/-- What the References of a reply start with: those of its parent, or the parent's
In-Reply-To where it has none. -/
def ancestors (parent : ThreadInput) : List JsString :=
  if parent.references.getD [] = [] then parent.inReplyTo.toList else parent.references.getD []

def Answers (parent reply : ThreadInput) : Prop :=
  reply.references = some (ancestors parent ++ parent.messageId.toList)

/-- A message and the replies below it. -/
inductive ReplyTree where
  | node (message : ThreadInput) (replies : List ReplyTree)

def ReplyTree.message : ReplyTree → ThreadInput
  | .node message _ => message

inductive ReplyTree.Mem : ThreadInput → ReplyTree → Prop
  | root {message replies} : Mem message (.node message replies)
  | reply {message parent replies} {tree : ReplyTree} : tree ∈ replies → Mem message tree →
      Mem message (.node parent replies)

/-- A Message-ID without blanks around it, and no native thread id. -/
structure Identified (m : ThreadInput) : Prop where
  messageId : ∃ id, m.messageId = some id ∧ id ≠ [] ∧ trim id = id
  native : m.nativeThreadId = none

/-- Every message is identified, and every reply carries the chain of its parent. -/
inductive ReplyTree.Conforms : ReplyTree → Prop
  | node {message replies} : Identified message → (∀ tree ∈ replies, Answers message tree.message) →
      (∀ tree ∈ replies, tree.Conforms) → Conforms (.node message replies)

def NoIds (m : ThreadInput) : Prop := m.references.getD [] = [] ∧ m.inReplyTo = none ∧ m.messageId = none

variable {cm sha1Hex} {m parent reply : ThreadInput} {tree : ReplyTree}

theorem rootOf_answers (h : Answers parent reply) (hparent : Identified parent) : rootOf reply = rootOf parent := by
  obtain ⟨id,hid,-,-⟩ := hparent.messageId
  rw [rootOf,rootOf,h,hid,ancestors]
  cases hrefs : parent.references.getD [] with
  | nil =>
    cases parent.inReplyTo with
    | none => rfl
    | some id => rfl
  | cons first rest => rfl

theorem rootOf_mem (hconf : tree.Conforms) (hm : ReplyTree.Mem m tree) :
    rootOf m = rootOf tree.message ∧ Identified m := by
  induction hm with
  | root =>
    cases hconf with
    | node hid _ _ => exact ⟨rfl,hid⟩
  | @reply parent replies tree htree _ ih =>
    cases hconf with
    | node hid hanswers hreplies =>
      obtain ⟨hroot,hm⟩ := ih (hreplies tree htree)
      refine ⟨?_,hm⟩
      rw [hroot,rootOf_answers (hanswers tree htree) hid]
      rfl

theorem computeThreadId_of_root {root : JsString} (hnative : m.nativeThreadId = none) (hroot : rootOf m = some root)
    (hne : root ≠ []) : computeThreadId cm sha1Hex m = some (js "r:" ++ shortHash sha1Hex (trim root)) := by
  have htruthy : truthy (some root) = some root := Option.filter_eq_some_iff.mpr ⟨rfl,by simpa using hne⟩
  rw [computeThreadId,hnative,hroot]
  simp only [htruthy]
  rfl

/-- Without any id the subject decides. -/
theorem computeThreadId_of_subject (hnative : m.nativeThreadId = none) (hroot : rootOf m = none)
    (hsubject : normalizeSubject cm m.subject ≠ []) :
    computeThreadId cm sha1Hex m = some (js "s:" ++ shortHash sha1Hex (normalizeSubject cm m.subject)) := by
  rw [computeThreadId,hnative,hroot]
  exact if_neg hsubject

variable (cm sha1Hex)

/-- Replies stay with the message they answer, at any depth of the tree and whatever its
root answers itself; messages without ids stay with their subject. -/
theorem conversations_together :
    (∀ tree : ReplyTree, tree.Conforms → (∀ id ∈ rootOf tree.message, id ≠ []) →
      ∃ id, ∀ m, ReplyTree.Mem m tree → computeThreadId cm sha1Hex m = some id) ∧
    ∀ a b : ThreadInput, (∀ m ∈ [a,b], NoIds m ∧ m.nativeThreadId = none) →
      normalizeSubject cm a.subject = normalizeSubject cm b.subject → normalizeSubject cm a.subject ≠ [] →
      computeThreadId cm sha1Hex a = computeThreadId cm sha1Hex b := by
  constructor
  · intro tree hconf hroot
    have hmem : ReplyTree.Mem tree.message tree := by
      cases tree
      exact .root
    obtain ⟨-,hid⟩ := rootOf_mem hconf hmem
    obtain ⟨own,hown,-,-⟩ := hid.messageId
    obtain ⟨root,heq⟩ : ∃ root, rootOf tree.message = some root := by
      rw [rootOf,hown]
      cases (tree.message.references.getD []).head? with
      | some id => exact ⟨id,rfl⟩
      | none =>
        cases tree.message.inReplyTo with
        | some id => exact ⟨id,rfl⟩
        | none => exact ⟨own,rfl⟩
    refine ⟨js "r:" ++ shortHash sha1Hex (trim root),fun m hm => ?_⟩
    obtain ⟨hsame,hidentified⟩ := rootOf_mem hconf hm
    exact computeThreadId_of_root hidentified.native (hsame.trans heq) (hroot root heq)
  · intro a b hnone hsame hne
    have hid : ∀ m ∈ [a,b], normalizeSubject cm m.subject ≠ [] →
        computeThreadId cm sha1Hex m = some (js "s:" ++ shortHash sha1Hex (normalizeSubject cm m.subject)) := by
      intro m hm hsubject
      obtain ⟨⟨hrefs,hreply,hmessage⟩,hnative⟩ := hnone m hm
      refine computeThreadId_of_subject hnative ?_ hsubject
      rw [rootOf,hrefs,hreply,hmessage]
      rfl
    rw [hid a (by simp) hne,hid b (by simp) (hsame ▸ hne),hsame]

/-- A message that answers one outside the mailbox, and its reply. -/
def answering : ThreadInput := ⟨none,some (js "<b@x>"),some (js "<a@x>"),none,some (js "Re: plans")⟩
def answered : ThreadInput := ⟨none,some (js "<c@x>"),some (js "<b@x>"),some [js "<a@x>",js "<b@x>"],some (js "RE: plans")⟩
def answeringTree : ReplyTree := .node answering [.node answered []]

def subjectOnly (subject : String) : ThreadInput := ⟨none,none,none,none,some (js subject)⟩

/-- The digests of two texts. -/
def sampleSha1 (input : JsString) : JsString :=
  if input = js "<a@x>" then js "eb51648601176cf0f50488bf711a0284c5a2fdd8"
  else if input = js "plans" then js "3a9055585a042324f4c9de4b2836d979bd8e3fa9"
  else []

theorem conversations_together_sample :
    (∃ id, ∀ m, ReplyTree.Mem m answeringTree → computeThreadId asciiCase sampleSha1 m = some id) ∧
    computeThreadId asciiCase sampleSha1 (subjectOnly "Re: Plans") =
      computeThreadId asciiCase sampleSha1 (subjectOnly "fwd[2]: plans") := by
  have hanswering : Identified answering := ⟨⟨_,rfl,by decide,by decide⟩,rfl⟩
  have hanswered : Identified answered := ⟨⟨_,rfl,by decide,by decide⟩,rfl⟩
  have hconf : answeringTree.Conforms := by
    refine .node hanswering ?_ ?_
    · intro tree htree
      rw [List.mem_singleton.mp htree]
      rfl
    · intro tree htree
      rw [List.mem_singleton.mp htree]
      exact .node hanswered (by simp) (by simp)
  refine ⟨(conversations_together asciiCase sampleSha1).1 answeringTree hconf (by decide),
    (conversations_together asciiCase sampleSha1).2 _ _ ?_ (by decide +kernel) (by decide +kernel)⟩
  intro m hm
  simp only [List.mem_cons,List.not_mem_nil,or_false] at hm
  rcases hm with rfl | rfl <;> exact ⟨⟨rfl,rfl,rfl⟩,rfl⟩

/-- A root whose In-Reply-To is the empty text, and a reply that carries it on. -/
def blankRoot : ThreadInput := ⟨none,some (js "<b@x>"),some [],none,none⟩
def blankReply : ThreadInput := ⟨none,some (js "<c@x>"),some (js "<b@x>"),some [[],js "<b@x>"],some (js "plans")⟩

/-- An empty id falls back to the subject, and native ids come before subjects. -/
theorem conversations_split :
    (∃ tree : ReplyTree, tree.Conforms ∧ ∃ m m', ReplyTree.Mem m tree ∧ ReplyTree.Mem m' tree ∧
      computeThreadId asciiCase sampleSha1 m ≠ computeThreadId asciiCase sampleSha1 m') ∧
    ∃ a b : ThreadInput, NoIds a ∧ NoIds b ∧ normalizeSubject asciiCase a.subject = normalizeSubject asciiCase b.subject ∧
      normalizeSubject asciiCase a.subject ≠ [] ∧
      computeThreadId asciiCase sampleSha1 a ≠ computeThreadId asciiCase sampleSha1 b := by
  have hroot : Identified blankRoot := ⟨⟨_,rfl,by decide,by decide⟩,rfl⟩
  have hreply : Identified blankReply := ⟨⟨_,rfl,by decide,by decide⟩,rfl⟩
  refine ⟨⟨.node blankRoot [.node blankReply []],?_,blankRoot,blankReply,.root,?_,by decide +kernel⟩,?_⟩
  · refine .node hroot ?_ ?_
    · intro tree htree
      rw [List.mem_singleton.mp htree]
      rfl
    · intro tree htree
      rw [List.mem_singleton.mp htree]
      exact .node hreply (by simp) (by simp)
  · exact .reply (List.mem_singleton.mpr rfl) .root
  · exact ⟨{ subjectOnly "plans" with nativeThreadId := some (js "1") },
      { subjectOnly "plans" with nativeThreadId := some (js "2") },⟨rfl,rfl,rfl⟩,⟨rfl,rfl,rfl⟩,rfl,
      by decide +kernel,by decide +kernel⟩

end Threads
end JustMail.Webmail.Threading
