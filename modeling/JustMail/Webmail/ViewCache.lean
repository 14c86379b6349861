import JustMail.Foundation.Decimal
import JustMail.Foundation.Runs
import JustMail.Webmail.CredentialAgree

/-! `WebmailCache`: the folder list and the message lists of a mailbox in Redis, with an
index of their keys. Calls run at the same time, one Redis command or transaction at a time. -/
namespace JustMail.Webmail.WebmailCache
open Foundation

section Keys

def foldersKey (sessionId mailboxId : JsString) : JsString := js "webmail:cache:folders:" ++ sessionId ++ js ":" ++ mailboxId

def listKey (sessionId mailboxId folder : JsString) (limit : Nat) : JsString :=
  js "webmail:cache:list:" ++ sessionId ++ js ":" ++ mailboxId ++ js ":" ++ folder ++ js ":" ++ decimal limit

def idxKey (sessionId mailboxId : JsString) : JsString := js "webmail:cache:idx:" ++ sessionId ++ js ":" ++ mailboxId

/-- A mailbox as a session sees it. -/
structure Scope where
  sessionId : UuidText
  mailboxId : UuidText
  deriving DecidableEq

inductive View where
  | folders
  | messageList (folder : JsString) (limit : Nat)
  deriving DecidableEq

def Scope.viewKey (b : Scope) : View → JsString
  | .folders => foldersKey b.sessionId.text b.mailboxId.text
  | .messageList folder limit => listKey b.sessionId.text b.mailboxId.text folder limit

def Scope.index (b : Scope) : JsString := idxKey b.sessionId.text b.mailboxId.text

variable {b b' : Scope} {v v' : View}

private theorem take_of_append {p q x y : JsString} (hp : 15 ≤ p.length) (hq : 15 ≤ q.length) (h : p ++ x = q ++ y) :
    p.take 15 = q.take 15 := by
  have htake := congrArg (List.take 15) h
  rwa [List.take_append_of_le_length hp,List.take_append_of_le_length hq] at htake

/-- The limit is what follows the last colon. -/
private theorem folder_limit_inj {folder folder' : JsString} {limit limit' : Nat}
    (h : folder ++ unit ':' :: decimal limit = folder' ++ unit ':' :: decimal limit') : folder = folder' ∧ limit = limit' := by
  have hcolon : ∀ n, unit ':' ∉ decimal n := by
    intro n hmem
    have hdigit : isDigit (unit ':') = false := by decide
    simp [decimal_digits n _ hmem] at hdigit
  rcases List.append_eq_append_iff.mp h with ⟨more,rfl,hrest⟩ | ⟨more,rfl,hrest⟩
  · cases more with
    | nil => exact ⟨by simp,decimal_injective (List.cons.inj hrest).2⟩
    | cons c more => exact absurd ((List.cons.inj hrest).2 ▸ by simp) (hcolon limit)
  · cases more with
    | nil => exact ⟨by simp,(decimal_injective (List.cons.inj hrest).2).symm⟩
    | cons c more => exact absurd ((List.cons.inj hrest).2 ▸ by simp) (hcolon limit')

private theorem scope_inj {x y : JsString}
    (h : b.sessionId.text ++ (js ":" ++ (b.mailboxId.text ++ x)) = b'.sessionId.text ++ (js ":" ++ (b'.mailboxId.text ++ y))) :
    b = b' ∧ x = y := by
  obtain ⟨hs,hrest⟩ := List.append_inj h (by rw [b.sessionId.length,b'.sessionId.length])
  obtain ⟨hm,hxy⟩ := List.append_inj (List.append_cancel_left hrest) (by rw [b.mailboxId.length,b'.mailboxId.length])
  refine ⟨?_,hxy⟩
  rw [Scope.mk.injEq]
  exact ⟨UuidText.text_inj.mp hs,UuidText.text_inj.mp hm⟩

theorem index_inj : b.index = b'.index ↔ b = b' := by
  constructor
  · intro h
    simp only [Scope.index,idxKey,List.append_assoc] at h
    exact (scope_inj (x := []) (y := []) (by simpa using List.append_cancel_left h)).1
  · rintro rfl
    rfl

theorem viewKey_ne_index : b.viewKey v ≠ b'.index := by
  intro h
  cases v with
  | folders =>
    simp only [Scope.viewKey,foldersKey,Scope.index,idxKey,List.append_assoc] at h
    exact absurd (take_of_append (by decide) (by decide) h) (by decide)
  | messageList folder limit =>
    simp only [Scope.viewKey,listKey,Scope.index,idxKey,List.append_assoc] at h
    exact absurd (take_of_append (by decide) (by decide) h) (by decide)

private theorem foldersKey_ne_listKey {s m s' m' folder : JsString} {limit : Nat} :
    foldersKey s m ≠ listKey s' m' folder limit := by
  intro h
  simp only [foldersKey,listKey,List.append_assoc] at h
  exact absurd (take_of_append (by decide) (by decide) h) (by decide)

theorem viewKey_inj : b.viewKey v = b'.viewKey v' ↔ b = b' ∧ v = v' := by
  constructor
  · intro h
    cases v with
    | folders =>
      cases v' with
      | folders =>
        simp only [Scope.viewKey,foldersKey,List.append_assoc] at h
        exact ⟨(scope_inj (x := []) (y := []) (by simpa using List.append_cancel_left h)).1,rfl⟩
      | messageList folder limit => exact absurd h foldersKey_ne_listKey
    | messageList folder limit =>
      cases v' with
      | folders => exact absurd h.symm foldersKey_ne_listKey
      | messageList folder' limit' =>
        simp only [Scope.viewKey,listKey,List.append_assoc] at h
        obtain ⟨hb,hrest⟩ := scope_inj (List.append_cancel_left h)
        obtain ⟨hfolder,hlimit⟩ := folder_limit_inj (List.append_cancel_left hrest)
        exact ⟨hb,by rw [hfolder,hlimit]⟩
  · rintro ⟨rfl,rfl⟩
    rfl

end Keys

/-- The views are kept as their JSON texts. -/
abbrev ViewStore := Keyspace JsString (Stored JsString JsString)

/-- The text that is parsed; `none` also where Redis answers with an error. -/
def read (r : ViewStore) (now : Nat) (key : JsString) : Option JsString :=
  match r.get now key with
  | some (some raw) => if raw.isEmpty then none else some raw
  | _ => none

/-- The transaction of `write`. -/
def write (ttl : Nat) (r : ViewStore) (now : Nat) (sessionId mailboxId key json : JsString) : ViewStore :=
  ((r.setEx now key (.string json) ttl).sadd now (idxKey sessionId mailboxId) key).expire now (idxKey sessionId mailboxId) ttl

/-- A call of `setFolders` or `setMessageList`. `wroteAt` is when its transaction was carried out. -/
structure SetCall where
  scope : Scope
  view : View
  json : JsString
  wroteAt : Option Nat
  deriving DecidableEq

/-- What a call of `bustMailbox` has done: it waits for SMEMBERS, or for DEL with the
keys it was given, or has come to its end. -/
inductive BustPhase where
  | called
  | listed (keys : List JsString)
  | finished
  | failed
  deriving DecidableEq

structure BustCall where
  scope : Scope
  startedAt : Nat
  phase : BustPhase
  deriving DecidableEq

/-- `now` is the time in seconds by which keys expire. `clock` numbers the starts of
busts and the transactions in the order in which they happen. -/
structure CacheState where
  redis : ViewStore
  now : Nat
  clock : Nat
  sets : List SetCall
  busts : List BustCall

def CacheState.initial : CacheState := ⟨.empty,0,0,[],[]⟩

def CacheState.view (s : CacheState) (b : Scope) (v : View) : Option JsString := read s.redis s.now (b.viewKey v)

inductive CacheAction where
  | wait (seconds : Nat)
  | set (scope : Scope) (view : View) (json : JsString)
  | exec (i : Nat)
  | bustMailbox (scope : Scope)
  | smembers (i : Nat)
  | del (i : Nat)

def cacheStep (ttl : Nat) (s : CacheState) : CacheAction → Option CacheState
  | .wait seconds => some { s with now := s.now + seconds }
  | .set scope view json => some { s with sets := s.sets ++ [⟨scope,view,json,none⟩] }
  | .exec i =>
    match s.sets[i]? with
    | some ⟨scope,view,json,none⟩ =>
      some { s with
        redis := write ttl s.redis s.now scope.sessionId.text scope.mailboxId.text (scope.viewKey view) json
        clock := s.clock + 1
        sets := s.sets.set i ⟨scope,view,json,some s.clock⟩ }
    | _ => none
  | .bustMailbox scope => some { s with clock := s.clock + 1, busts := s.busts ++ [⟨scope,s.clock,.called⟩] }
  | .smembers i =>
    match s.busts[i]? with
    | some ⟨scope,startedAt,.called⟩ =>
      let phase := match s.redis.smembers s.now scope.index with
        | none => .failed
        | some keys => .listed keys
      some { s with busts := s.busts.set i ⟨scope,startedAt,phase⟩ }
    | _ => none
  | .del i =>
    match s.busts[i]? with
    | some ⟨scope,startedAt,.listed keys⟩ =>
      some { s with
        redis := s.redis.del (keys ++ [scope.index])
        busts := s.busts.set i ⟨scope,startedAt,.finished⟩ }
    | _ => none

/-- Of the views written before a bust started none can be read once the bust has
finished, unless it has been written again since it started. -/
def BustComplete (s : CacheState) : Prop :=
  ∀ b ∈ s.busts, b.phase = .finished → ∀ w ∈ s.sets, w.scope = b.scope → (∃ at₀ ∈ w.wroteAt, at₀ < b.startedAt) →
    s.view w.scope w.view = none ∨
    ∃ w' ∈ s.sets, w'.scope = w.scope ∧ w'.view = w.view ∧ ∃ at₁ ∈ w'.wroteAt, b.startedAt < at₁

end JustMail.Webmail.WebmailCache
