import JustMail.Foundation.LengthFrames
import JustMail.Foundation.Runs
import JustMail.Foundation.Utf8Decoder

/-! The virus scan (`clamav.service.ts`): a body is streamed to clamd while the events of
the source and of the socket come in any order. -/
namespace JustMail.Av
open Foundation LengthFrames

section Model

def ascii (s : String) : Bytes := s.toList.map (·.toNat.toUInt8)

inductive Outcome
  | clean
  | infected (signature : JsString)
  | failed
  deriving DecidableEq

/-- The answers of clamd. -/
inductive Reply
  | ok
  | found (signature : Bytes)
  | error (message : Bytes)
  deriving DecidableEq

/-- An answer on the wire, with its NUL. -/
def Reply.render : Reply → Bytes
  | .ok => ascii "stream: OK" ++ [0]
  | .found signature => ascii "stream: " ++ signature ++ ascii " FOUND" ++ [0]
  | .error message => message ++ ascii " ERROR" ++ [0]

/-- The class `\w`. -/
def isWordUnit (c : CodeUnit) : Bool :=
  (48 ≤ c && c ≤ 57) || (65 ≤ c && c ≤ 90) || (97 ≤ c && c ≤ 122) || c == unit '_'

/-- `text.replace(/\0+$/, "").trim()`. -/
def replyText (received : Bytes) : JsString := trim ((decodeLossy received).rdropWhile (· = 0))

/-- `/\bOK$/`. -/
def saysOk (reply : JsString) : Bool :=
  (js "OK").isSuffixOf reply && !(reply.take (reply.length - 2)).getLast?.any isWordUnit

/-- `reply.replace(/^stream:\s*/, "").replace(/\s+FOUND$/, "")`. -/
def signatureOf (reply : JsString) : JsString :=
  let s := if (js "stream:").isPrefixOf reply then trimStart (reply.drop 7) else reply
  let front := s.take (s.length - 5)
  if (js "FOUND").isSuffixOf s ∧ front.getLast?.any isSpace then trimEnd front else s

/-- What the `end` of the socket settles the scan with. -/
def verdict (received : Bytes) : Outcome :=
  let reply := replyText received
  if saysOk reply then .clean
  else if (js "FOUND").isSuffixOf reply then .infected (signatureOf reply)
  else .failed

/-- The command that opens the stream. -/
def command : Bytes := ascii "zINSTREAM" ++ [0]

/-- The content of a stream that clamd has read to its end. -/
def instream (read : Bytes) : Option Bytes :=
  if command.isPrefixOf read then readFrames (read.drop command.length) else none

/-- A scan and its clamd. `remaining` are the buffers that the source has not emitted yet,
`pending` the bytes of the answer on their way, and `judged` the content answered for. -/
structure ScanState where
  running : Bool
  remaining : List Bytes
  ended : Bool
  connected : Bool
  socketOpen : Bool
  written : Bytes
  received : Bytes
  outcomes : List Outcome
  answer : Option Reply
  closed : Bool
  pending : Bytes
  judged : Option Bytes

/-- Without the scanner a scan is over at once. -/
def initial (clamavEnabled : Bool) (buffers : List Bytes) : ScanState where
  running := clamavEnabled
  remaining := buffers
  ended := false
  connected := false
  socketOpen := true
  written := []
  received := []
  outcomes := if clamavEnabled then [] else [.clean]
  answer := none
  closed := false
  pending := []
  judged := none

inductive Event
  | sourceData
  | sourceEnd
  | sourceError
  | connect
  | drain
  | socketData (bytes : Bytes)
  | socketEnd
  | timeout
  | socketError
  | serverAnswers (reply : Reply) (read : Bytes)
  | serverCloses

namespace ScanState

/-- `socket.write`; a socket that is gone takes nothing. -/
def write (s : ScanState) (bytes : Bytes) : ScanState :=
  if s.socketOpen then { s with written := s.written ++ bytes } else s

def settled (s : ScanState) : Bool := !s.outcomes.isEmpty

def settle (s : ScanState) (o : Outcome) : ScanState :=
  if s.settled then s else { s with outcomes := s.outcomes ++ [o], socketOpen := false }

/-- The source's listeners are there from the connection on: a buffer before it is lost, and an
error is one of the process. So is a buffer whose length does not fit its prefix. -/
def onSourceData (s : ScanState) : Option ScanState :=
  match s.remaining with
  | [] => none
  | buf :: rest =>
    if s.ended then none
    else if !s.connected then some { s with remaining := rest }
    else if buf.length < 2^32 then some ({ s with remaining := rest }.write (frame buf))
    else some { s with remaining := rest, running := false }

def onSourceEnd (s : ScanState) : Option ScanState :=
  if s.ended || !s.remaining.isEmpty then none
  else if s.connected then some ({ s with ended := true }.write (be32 0))
  else some { s with ended := true }

def onSourceError (s : ScanState) : Option ScanState :=
  if s.ended then none
  else if s.connected then some ({ s with ended := true }.settle .failed)
  else some { s with ended := true, running := false }

def onConnect (s : ScanState) : Option ScanState :=
  if s.connected || !s.socketOpen then none else some ({ s with connected := true }.write command)

/-- The answer arrives in pieces, the end of the connection behind it. -/
def onSocketData (s : ScanState) (bytes : Bytes) : Option ScanState :=
  if s.socketOpen && bytes.isPrefixOf s.pending then
    some { s with received := s.received ++ bytes, pending := s.pending.drop bytes.length }
  else none

def onSocketEnd (s : ScanState) : Option ScanState :=
  if s.socketOpen && s.closed && s.pending.isEmpty then some { s.settle (verdict s.received) with socketOpen := false }
  else none

/-- clamd answers once, from what it has read so far, and OK only for a whole stream that it
judges clean. -/
def serverAnswers (judge : Bytes → Bool) (s : ScanState) (reply : Reply) (read : Bytes) : Option ScanState :=
  if s.closed || !read.isPrefixOf s.written then none
  else if reply = .ok ∧ !(instream read).any judge then none
  else some { s with answer := some reply, closed := true, pending := reply.render, judged := instream read }

def serverCloses (s : ScanState) : Option ScanState := if s.closed then none else some { s with closed := true }

end ScanState

variable (judge : Bytes → Bool)

/-- One event with its handlers, while the process runs. -/
def step (s : ScanState) (event : Event) : Option ScanState :=
  if !s.running then none
  else match event with
    | .sourceData => s.onSourceData
    | .sourceEnd => s.onSourceEnd
    | .sourceError => s.onSourceError
    | .connect => s.onConnect
    | .drain => some s
    | .socketData bytes => s.onSocketData bytes
    | .socketEnd => s.onSocketEnd
    | .timeout => some (s.settle .failed)
    | .socketError => some (s.settle .failed)
    | .serverAnswers reply read => s.serverAnswers judge reply read
    | .serverCloses => s.serverCloses

/-- Events that leave no content out: before the connection nothing but empty buffers, and
behind an empty buffer nothing else. -/
def Covers (s : ScanState) (event : Event) : Prop :=
  match event,s.remaining with
  | .sourceData,buf :: rest => if s.connected then buf = [] → rest.flatten = [] else buf = []
  | _,_ => True

end Model

section Replies
variable {s : JsString} {c : CodeUnit}

private theorem getLast?_trim (hs : s.getLast? = some c) (hc : isSpace c = false) : (trim s).getLast? = some c := by
  obtain ⟨front,rfl⟩ : ∃ front, s = front ++ [c] := ⟨_,(List.dropLast_append_getLast? _ hs).symm⟩
  have hstart : ∃ rest, trimStart (front ++ [c]) = rest ++ [c] := by
    rw [trimStart,List.dropWhile_append]
    split
    · exact ⟨[],by simp [hc]⟩
    · exact ⟨_,rfl⟩
  obtain ⟨rest,hrest⟩ := hstart
  rw [trim,hrest,trimEnd,List.rdropWhile_concat_neg _ _ _ (by simp [hc])]
  exact List.getLast?_concat

/-- The text of an answer ends with the last word that clamd wrote. -/
private theorem replyText_last (front tail : Bytes) {w : JsString} (htail : decodeLossy tail = w ++ [0])
    (hw : w.getLast? = some c) (hzero : c ≠ 0) (hc : isSpace c = false) :
    (replyText (front ++ 32 :: tail)).getLast? = some c := by
  obtain ⟨init,rfl⟩ : ∃ init, w = init ++ [c] := ⟨_,(List.dropLast_append_getLast? _ hw).symm⟩
  have htext : decodeLossy (front ++ 32 :: tail) = decodeLossy front ++ utf16 (Char.ofNat 32) ++ init ++ [c] ++ [0] := by
    rw [decodeLossy_append_ascii (by decide),htail]
    simp only [List.append_assoc]
    rfl
  rw [replyText,htext,List.rdropWhile_concat_pos _ _ _ (by simp),List.rdropWhile_concat_neg _ _ _ (by simpa using hzero)]
  exact getLast?_trim List.getLast?_concat hc

private theorem last_of_saysOk (h : saysOk s = true) : s.getLast? = some (unit 'K') := by
  rw [saysOk,Bool.and_eq_true] at h
  obtain ⟨front,rfl⟩ := List.isSuffixOf_iff_suffix.mp h.1
  exact List.getLast?_append_of_ne_nil _ (by decide)

/-- Only the answer OK is taken for a clean body. -/
theorem verdict_render {r : Reply} (h : verdict r.render = .clean) : r = .ok := by
  have hlast : (replyText r.render).getLast? = some (unit 'K') := by
    rw [verdict] at h
    split at h
    · rename_i hok
      exact last_of_saysOk hok
    · split at h <;> cases h
  cases r with
  | ok => rfl
  | found signature =>
    have hword : (replyText (Reply.found signature).render).getLast? = some (unit 'D') := by
      have hrender : (Reply.found signature).render = (ascii "stream: " ++ signature) ++ 32 :: (ascii "FOUND" ++ [0]) := by
        rw [Reply.render,List.append_assoc (ascii "stream: " ++ signature)]
        rfl
      rw [hrender]
      exact replyText_last _ _ (w := js "FOUND") (by decide +kernel) (by decide) (by decide) (by decide)
    rw [hword] at hlast
    exact absurd hlast (by decide)
  | error message =>
    have hword : (replyText (Reply.error message).render).getLast? = some (unit 'R') := by
      have hrender : (Reply.error message).render = message ++ 32 :: (ascii "ERROR" ++ [0]) := by
        rw [Reply.render,List.append_assoc message]
        rfl
      rw [hrender]
      exact replyText_last _ _ (w := js "ERROR") (by decide +kernel) (by decide) (by decide) (by decide)
    rw [hword] at hlast
    exact absurd hlast (by decide)

theorem verdict_empty : verdict [] ≠ .clean := by decide +kernel

end Replies

section Streams
variable {read rest content : Bytes}

private theorem instream_append (h : instream read = some content) (rest : Bytes) :
    instream (read ++ rest) = some content := by
  rw [instream] at h
  split at h
  · rename_i hcommand
    obtain ⟨stream,rfl⟩ := List.isPrefixOf_iff_prefix.mp hcommand
    rw [List.drop_left] at h
    rw [instream,if_pos (List.isPrefixOf_iff_prefix.mpr (by simp)),List.append_assoc,List.drop_left]
    exact readFrames_append h rest
  · cases h

private theorem instream_command (stream : Bytes) : instream (command ++ stream) = readFrames stream := by
  rw [instream,if_pos (List.isPrefixOf_iff_prefix.mpr (List.prefix_append _ _)),List.drop_left]

end Streams

section Invariants
variable {judge : Bytes → Bool} {total content : Bytes} {s t : ScanState} {event : Event} {rest : List Bytes}

/-- Whether what the source still emits may reach the stream. -/
def ScanState.flowing (s : ScanState) : Prop := s.running = true ∧ s.ended = false ∧ s.socketOpen = true

/-- What is on the wire: nothing yet; the command and frames that all hold something; or a
stream with its end, which is the whole content. -/
inductive Streamed (total : Bytes) (s : ScanState) : Prop
  | idle : s.connected = false → s.written = [] → (s.flowing → s.remaining.flatten = total) → Streamed total s
  | frames (bs : List Bytes) : s.connected = true → (∀ b ∈ bs, b ≠ [] ∧ b.length < 2^32) →
      s.written = command ++ bs.flatMap frame → (s.flowing → bs.flatten ++ s.remaining.flatten = total) → Streamed total s
  | whole : s.connected = true → instream s.written = some total → s.remaining.flatten = [] → Streamed total s

/-- Whatever clamd has read to its end is the whole content. -/
theorem Streamed.eq_of_instream (h : Streamed total s) (hread : instream s.written = some content) : content = total := by
  cases h with
  | idle _ hwritten _ =>
    have hnone : instream [] = none := by decide +kernel
    rw [hwritten,hnone] at hread
    cases hread
  | frames bs _ hbs hwritten _ =>
    rw [hwritten,instream_command,readFrames_open hbs] at hread
    cases hread
  | whole _ hwhole _ => exact (Option.some.inj (hwhole.symm.trans hread)).symm

/-- The answer, its delivery and the verdict. -/
structure Answered (judge : Bytes → Bool) (total : Bytes) (s : ScanState) : Prop where
  closed : s.answer ≠ none → s.closed = true
  judged : s.answer = some .ok → s.judged = some total ∧ judge total = true
  delivered : s.received ++ s.pending = (s.answer.map Reply.render).getD []
  clean : .clean ∈ s.outcomes → s.answer = some .ok

/-- Events that leave the wire alone, and do not start what has stopped. -/
theorem Streamed.quiet (h : Streamed total s) (hwritten : t.written = s.written) (hremaining : t.remaining = s.remaining)
    (hconnected : t.connected = s.connected) (hflow : t.flowing → s.flowing) : Streamed total t := by
  cases h with
  | idle hc hw hf => exact .idle (hconnected.trans hc) (hwritten.trans hw) fun ht => hremaining ▸ hf (hflow ht)
  | frames bs hc hbs hw hf =>
    exact .frames bs (hconnected.trans hc) hbs (hwritten.trans hw) fun ht => hremaining ▸ hf (hflow ht)
  | whole hc hw hr => exact .whole (hconnected.trans hc) (hwritten ▸ hw) (hremaining ▸ hr)

private theorem settle_fields (s : ScanState) (o : Outcome) : (s.settle o).written = s.written ∧
    (s.settle o).remaining = s.remaining ∧ (s.settle o).connected = s.connected ∧ (s.settle o).answer = s.answer ∧
    (s.settle o).closed = s.closed ∧ (s.settle o).judged = s.judged ∧ (s.settle o).received = s.received ∧
    (s.settle o).pending = s.pending ∧ ((s.settle o).flowing → s.flowing) := by
  rw [ScanState.settle]
  split
  · exact ⟨rfl,rfl,rfl,rfl,rfl,rfl,rfl,rfl,id⟩
  · refine ⟨rfl,rfl,rfl,rfl,rfl,rfl,rfl,rfl,fun h => ?_⟩
    cases h.2.2

private theorem streamed_settle (h : Streamed total s) (o : Outcome) : Streamed total (s.settle o) := by
  obtain ⟨hw,hr,hc,-,-,-,-,-,hf⟩ := settle_fields s o
  exact h.quiet hw hr hc hf

private theorem mem_settle {o : Outcome} (h : .clean ∈ (s.settle o).outcomes) : .clean ∈ s.outcomes ∨ o = .clean := by
  rw [ScanState.settle] at h
  split at h
  · exact .inl h
  · rcases List.mem_append.mp h with h | h
    · exact .inl h
    · exact .inr (List.mem_singleton.mp h).symm

private theorem answered_settle {o : Outcome} (h : Answered judge total s) (ho : o = .clean → s.answer = some .ok) :
    Answered judge total (s.settle o) := by
  obtain ⟨-,-,-,ha,hc,hj,hr,hp,-⟩ := settle_fields s o
  constructor
  · rw [ha,hc]
    exact h.closed
  · rw [ha,hj]
    exact h.judged
  · rw [ha,hr,hp]
    exact h.delivered
  · rw [ha]
    intro hmem
    exact (mem_settle hmem).elim h.clean ho

private theorem not_flowing_of_closed (h : ¬s.socketOpen = true) : ¬s.flowing := fun hf => h hf.2.2

private theorem streamed_data {buf : Bytes} (h : Streamed total s) (hconnected : s.connected = true)
    (hrunning : s.running = true) (hended : s.ended = false) (hremaining : s.remaining = buf :: rest)
    (hcovers : buf = [] → rest.flatten = []) (hlen : buf.length < 2^32) :
    Streamed total ({ s with remaining := rest }.write (frame buf)) := by
  by_cases hopen : s.socketOpen = true
  case neg =>
    have hwrite : { s with remaining := rest }.write (frame buf) = { s with remaining := rest } := if_neg hopen
    rw [hwrite]
    cases h with
    | idle hc _ _ => exact absurd (hc.symm.trans hconnected) (by decide)
    | frames bs hc hbs hw _ => exact .frames bs hc hbs hw fun hf => absurd hf (not_flowing_of_closed hopen)
    | whole hc hw hr =>
      refine .whole hc hw ?_
      rw [hremaining,List.flatten_cons,List.append_eq_nil_iff] at hr
      exact hr.2
  case pos =>
    have hwrite : { s with remaining := rest }.write (frame buf) =
        { s with remaining := rest, written := s.written ++ frame buf } := if_pos hopen
    rw [hwrite]
    cases h with
    | idle hc _ _ => exact absurd (hc.symm.trans hconnected) (by decide)
    | frames bs hc hbs hw hf =>
      have htotal := hf ⟨hrunning,hended,hopen⟩
      rw [hremaining,List.flatten_cons] at htotal
      by_cases hempty : buf = []
      · refine .whole hc ?_ (hcovers hempty)
        change instream (s.written ++ frame buf) = _
        rw [hcovers hempty,hempty,List.append_nil,List.append_nil] at htotal
        rw [hw,hempty,List.append_assoc,instream_command]
        exact (readFrames_ended hbs).trans (congrArg some htotal)
      · refine .frames (bs ++ [buf]) hc ?_ ?_ fun _ => ?_
        · intro b hb
          rcases List.mem_append.mp hb with hb | hb
          · exact hbs b hb
          · rw [List.mem_singleton.mp hb]
            exact ⟨hempty,hlen⟩
        · change s.written ++ frame buf = _
          rw [hw,List.flatMap_append,List.append_assoc]
          simp
        · rw [← htotal]
          simp
    | whole hc hw hr =>
      refine .whole hc (instream_append hw _) ?_
      rw [hremaining,List.flatten_cons,List.append_eq_nil_iff] at hr
      exact hr.2

private theorem streamed_end (h : Streamed total s) (hconnected : s.connected = true) (hrunning : s.running = true)
    (hended : s.ended = false) (hremaining : s.remaining = []) :
    Streamed total ({ s with ended := true }.write (be32 0)) := by
  by_cases hopen : s.socketOpen = true
  case neg =>
    have hwrite : { s with ended := true }.write (be32 0) = { s with ended := true } := if_neg hopen
    rw [hwrite]
    exact h.quiet rfl rfl rfl fun hf => absurd hf.2.1 (by simp)
  case pos =>
    have hwrite : { s with ended := true }.write (be32 0) =
        { s with ended := true, written := s.written ++ be32 0 } := if_pos hopen
    rw [hwrite]
    cases h with
    | idle hc _ _ => exact absurd (hc.symm.trans hconnected) (by decide)
    | frames bs hc hbs hw hf =>
      have htotal := hf ⟨hrunning,hended,hopen⟩
      rw [hremaining,List.flatten_nil,List.append_nil] at htotal
      refine .whole hc ?_ (by rw [hremaining]; rfl)
      change instream (s.written ++ be32 0) = _
      rw [hw,List.append_assoc,instream_command]
      exact (readFrames_ended hbs).trans (congrArg some htotal)
    | whole hc hw hr => exact .whole hc (instream_append hw _) hr

private theorem streamed_connect (h : Streamed total s) (hconnected : s.connected = false) (hopen : s.socketOpen = true) :
    Streamed total ({ s with connected := true }.write command) := by
  have hwrite : { s with connected := true }.write command =
      { s with connected := true, written := s.written ++ command } := if_pos hopen
  rw [hwrite]
  cases h with
  | idle _ hw hf =>
    refine .frames [] rfl (by simp) ?_ fun hflow => hf hflow
    change s.written ++ command = _
    rw [hw]
    rfl
  | frames bs hc _ _ _ => exact absurd (hc.symm.trans hconnected) (by decide)
  | whole hc _ _ => exact absurd (hc.symm.trans hconnected) (by decide)

/-- Both invariants. -/
structure Sound (judge : Bytes → Bool) (total : Bytes) (s : ScanState) : Prop where
  streamed : Streamed total s
  answered : Answered judge total s

/-- The answer's side does not depend on what is written. -/
private theorem Answered.quiet (h : Answered judge total s) (hanswer : t.answer = s.answer) (hclosed : t.closed = s.closed)
    (hjudged : t.judged = s.judged) (hreceived : t.received = s.received) (hpending : t.pending = s.pending)
    (houtcomes : t.outcomes = s.outcomes) : Answered judge total t := by
  constructor
  · rw [hanswer,hclosed]
    exact h.closed
  · rw [hanswer,hjudged]
    exact h.judged
  · rw [hanswer,hreceived,hpending]
    exact h.delivered
  · rw [hanswer,houtcomes]
    exact h.clean

private theorem answered_write {bytes : Bytes} (h : Answered judge total s) : Answered judge total (s.write bytes) := by
  rw [ScanState.write]
  split
  · exact h.quiet rfl rfl rfl rfl rfl rfl
  · exact h

/-- A buffer before the connection is empty. -/
private theorem streamed_lost {buf : Bytes} (h : Streamed total s) (hconnected : s.connected = false)
    (hremaining : s.remaining = buf :: rest) (hbuf : buf = []) : Streamed total { s with remaining := rest } := by
  cases h with
  | idle hc hw hf =>
    refine .idle hc hw fun hflow => ?_
    have htotal := hf hflow
    rw [hremaining,List.flatten_cons,hbuf] at htotal
    exact htotal
  | frames bs hc _ _ _ => exact absurd (hc.symm.trans hconnected) (by decide)
  | whole hc _ _ => exact absurd (hc.symm.trans hconnected) (by decide)

/-- A buffer that is too long stops the process. -/
private theorem streamed_thrown {buf : Bytes} (h : Streamed total s) (hconnected : s.connected = true)
    (hremaining : s.remaining = buf :: rest) : Streamed total { s with remaining := rest, running := false } := by
  cases h with
  | idle hc _ _ => exact absurd (hc.symm.trans hconnected) (by decide)
  | frames bs hc hbs hw _ => exact .frames bs hc hbs hw fun hf => absurd hf.1 (by simp)
  | whole hc hw hr =>
    refine .whole hc hw ?_
    rw [hremaining,List.flatten_cons,List.append_eq_nil_iff] at hr
    exact hr.2

private theorem sound_sourceData (h : Sound judge total s) (hrunning : s.running = true) (hcovers : Covers s .sourceData)
    (hstep : s.onSourceData = some t) : Sound judge total t := by
  obtain ⟨hstream,hanswer⟩ := h
  rw [ScanState.onSourceData] at hstep
  cases hremaining : s.remaining with
  | nil => simp [hremaining] at hstep
  | cons buf rest =>
    simp only [hremaining] at hstep
    simp only [Covers,hremaining] at hcovers
    split at hstep
    · cases hstep
    · rename_i hended
      rw [Bool.not_eq_true] at hended
      have hquiet : ∀ running, Answered judge total { s with remaining := rest, running := running } := fun _ =>
        hanswer.quiet rfl rfl rfl rfl rfl rfl
      cases hconnected : s.connected with
      | false =>
        simp only [hconnected,Bool.not_false,if_true,Bool.false_eq_true,if_false] at hstep hcovers
        cases hstep
        have hlost := streamed_lost hstream hconnected hremaining hcovers
        rw [hconnected] at hlost
        exact ⟨hlost,hanswer.quiet rfl rfl rfl rfl rfl rfl⟩
      | true =>
        simp only [hconnected,Bool.not_true,Bool.false_eq_true,if_false,if_true] at hstep hcovers
        rw [← hconnected] at hstep
        split at hstep
        · rename_i hlen
          cases hstep
          exact ⟨streamed_data hstream hconnected hrunning hended hremaining hcovers hlen,answered_write (hquiet s.running)⟩
        · cases hstep
          exact ⟨streamed_thrown hstream hconnected hremaining,hquiet false⟩

private theorem sound_sourceEnd (h : Sound judge total s) (hrunning : s.running = true)
    (hstep : s.onSourceEnd = some t) : Sound judge total t := by
  obtain ⟨hstream,hanswer⟩ := h
  have hended : Answered judge total { s with ended := true } := hanswer.quiet rfl rfl rfl rfl rfl rfl
  rw [ScanState.onSourceEnd] at hstep
  split at hstep
  · cases hstep
  · rename_i hguard
    simp only [Bool.or_eq_true,Bool.not_eq_true',not_or,Bool.not_eq_true,Bool.not_eq_false,List.isEmpty_iff] at hguard
    split at hstep
    · rename_i hconnected
      cases hstep
      exact ⟨streamed_end hstream hconnected hrunning hguard.1 hguard.2,answered_write hended⟩
    · cases hstep
      exact ⟨hstream.quiet rfl rfl rfl fun hf => absurd hf.2.1 (by simp),hended⟩

private theorem sound_sourceError (h : Sound judge total s) (hstep : s.onSourceError = some t) : Sound judge total t := by
  obtain ⟨hstream,hanswer⟩ := h
  rw [ScanState.onSourceError] at hstep
  split at hstep
  · cases hstep
  · have hended : Streamed total { s with ended := true } :=
      hstream.quiet rfl rfl rfl fun hf => absurd hf.2.1 (by simp)
    split at hstep
    · cases hstep
      refine ⟨streamed_settle hended _,answered_settle (hanswer.quiet rfl rfl rfl rfl rfl rfl) fun ho => ?_⟩
      cases ho
    · cases hstep
      exact ⟨hstream.quiet rfl rfl rfl fun hf => absurd hf.1 (by simp),hanswer.quiet rfl rfl rfl rfl rfl rfl⟩

private theorem sound_connect (h : Sound judge total s) (hstep : s.onConnect = some t) : Sound judge total t := by
  rw [ScanState.onConnect] at hstep
  split at hstep
  · cases hstep
  · rename_i hguard
    simp only [Bool.or_eq_true,Bool.not_eq_true',not_or,Bool.not_eq_true,Bool.not_eq_false] at hguard
    cases hstep
    exact ⟨streamed_connect h.streamed hguard.1 hguard.2,answered_write (h.answered.quiet rfl rfl rfl rfl rfl rfl)⟩

private theorem sound_socketData {bytes : Bytes} (h : Sound judge total s) (hstep : s.onSocketData bytes = some t) :
    Sound judge total t := by
  obtain ⟨hstream,hanswer⟩ := h
  rw [ScanState.onSocketData] at hstep
  split at hstep
  · rename_i hguard
    rw [Bool.and_eq_true] at hguard
    obtain ⟨behind,hbehind⟩ := List.isPrefixOf_iff_prefix.mp hguard.2
    cases hstep
    refine ⟨hstream.quiet rfl rfl rfl id,⟨hanswer.closed,hanswer.judged,?_,hanswer.clean⟩⟩
    rw [← hanswer.delivered]
    change s.received ++ bytes ++ s.pending.drop bytes.length = _
    rw [← hbehind,List.drop_left,List.append_assoc]
  · cases hstep

/-- At the end of the connection the whole answer is there, or there is none. -/
private theorem answer_of_verdict (h : Answered judge total s) (hpending : s.pending = [])
    (hverdict : verdict s.received = .clean) : s.answer = some .ok := by
  have hall := h.delivered
  rw [hpending,List.append_nil] at hall
  rw [hall] at hverdict
  cases hreply : s.answer with
  | none =>
    rw [hreply] at hverdict
    exact absurd hverdict verdict_empty
  | some r =>
    rw [hreply] at hverdict
    rw [verdict_render hverdict]

private theorem sound_socketEnd (h : Sound judge total s) (hstep : s.onSocketEnd = some t) : Sound judge total t := by
  rw [ScanState.onSocketEnd] at hstep
  split at hstep
  · rename_i hguard
    simp only [Bool.and_eq_true,List.isEmpty_iff] at hguard
    cases hstep
    have hsettled := answered_settle h.answered (answer_of_verdict h.answered hguard.2)
    exact ⟨(streamed_settle h.streamed _).quiet rfl rfl rfl fun hf => absurd hf.2.2 (by simp),
      hsettled.quiet rfl rfl rfl rfl rfl rfl⟩
  · cases hstep

private theorem sound_serverAnswers {reply : Reply} {read : Bytes} (h : Sound judge total s)
    (hstep : s.serverAnswers judge reply read = some t) : Sound judge total t := by
  obtain ⟨hstream,hanswer⟩ := h
  rw [ScanState.serverAnswers] at hstep
  split at hstep
  · cases hstep
  · rename_i hguard
    simp only [Bool.or_eq_true,Bool.not_eq_true',not_or,Bool.not_eq_true,Bool.not_eq_false] at hguard
    obtain ⟨hclosed,hread⟩ := hguard
    have hnone : s.answer = none := by
      by_contra hsome
      rw [hanswer.closed hsome] at hclosed
      cases hclosed
    split at hstep
    · cases hstep
    · rename_i hok
      cases hstep
      refine ⟨hstream.quiet rfl rfl rfl id,⟨fun _ => rfl,fun hanswerOk => ?_,?_,fun hmem => ?_⟩⟩
      · have hreply : reply = .ok := Option.some.inj hanswerOk
        obtain ⟨behind,hbehind⟩ := List.isPrefixOf_iff_prefix.mp hread
        change instream read = some total ∧ _
        cases hcontent : instream read with
        | none => exact absurd ⟨hreply,by rw [hcontent]; rfl⟩ hok
        | some content =>
          have hwhole : instream s.written = some content := hbehind ▸ instream_append hcontent behind
          obtain rfl := hstream.eq_of_instream hwhole
          refine ⟨rfl,?_⟩
          by_contra hbad
          exact hok ⟨hreply,by rw [hcontent]; simpa using hbad⟩
      · have hempty := hanswer.delivered
        rw [hnone] at hempty
        obtain ⟨hreceived,-⟩ := List.append_eq_nil_iff.mp hempty
        change s.received ++ reply.render = _
        rw [hreceived]
        rfl
      · have hdone := hanswer.clean hmem
        rw [hnone] at hdone
        cases hdone

private theorem sound_serverCloses (h : Sound judge total s) (hstep : s.serverCloses = some t) : Sound judge total t := by
  rw [ScanState.serverCloses] at hstep
  split at hstep
  · cases hstep
  · cases hstep
    exact ⟨h.streamed.quiet rfl rfl rfl id,⟨fun _ => rfl,h.answered.judged,h.answered.delivered,h.answered.clean⟩⟩

private theorem sound_failed (h : Sound judge total s) : Sound judge total (s.settle .failed) :=
  ⟨streamed_settle h.streamed _,answered_settle h.answered fun ho => by cases ho⟩

/-- Any event that leaves no content out. -/
theorem sound_step (h : Sound judge total s) (hcovers : Covers s event) (hstep : step judge s event = some t) :
    Sound judge total t := by
  unfold step at hstep
  split at hstep
  · cases hstep
  rename_i hrunning
  rw [Bool.not_eq_true',Bool.not_eq_false] at hrunning
  cases event with
  | sourceData => exact sound_sourceData h hrunning hcovers hstep
  | sourceEnd => exact sound_sourceEnd h hrunning hstep
  | sourceError => exact sound_sourceError h hstep
  | connect => exact sound_connect h hstep
  | drain =>
    cases hstep
    exact h
  | socketData bytes => exact sound_socketData h hstep
  | socketEnd => exact sound_socketEnd h hstep
  | timeout =>
    cases hstep
    exact sound_failed h
  | socketError =>
    cases hstep
    exact sound_failed h
  | serverAnswers reply read => exact sound_serverAnswers h hstep
  | serverCloses => exact sound_serverCloses h hstep

theorem sound_initial (judge : Bytes → Bool) (buffers : List Bytes) : Sound judge buffers.flatten (initial true buffers) := by
  refine ⟨.idle rfl rfl fun _ => rfl,⟨fun h => absurd rfl h,fun h => ?_,rfl,fun h => ?_⟩⟩
  · cases h
  · cases h

private theorem outcomes_write (s : ScanState) (bytes : Bytes) : (s.write bytes).outcomes = s.outcomes := by
  rw [ScanState.write]
  split <;> rfl

private theorem outcomes_sourceData (h : s.onSourceData = some t) : t.outcomes = s.outcomes := by
  simp only [ScanState.onSourceData] at h
  split at h
  · cases h
  · split at h
    · cases h
    · split at h
      · cases h
        rfl
      · split at h
        · cases h
          exact outcomes_write _ _
        · cases h
          rfl

private theorem outcomes_sourceEnd (h : s.onSourceEnd = some t) : t.outcomes = s.outcomes := by
  simp only [ScanState.onSourceEnd] at h
  split at h
  · cases h
  · split at h
    · cases h
      exact outcomes_write _ _
    · cases h
      rfl

private theorem outcomes_sourceError (h : s.onSourceError = some t) :
    t.outcomes = s.outcomes ∨ t.outcomes = (s.settle .failed).outcomes := by
  simp only [ScanState.onSourceError] at h
  split at h
  · cases h
  · split at h
    · cases h
      right
      rw [ScanState.settle,ScanState.settle]
      change (if s.settled = true then _ else _ : ScanState).outcomes = _
      split <;> rfl
    · cases h
      exact .inl rfl

private theorem outcomes_connect (h : s.onConnect = some t) : t.outcomes = s.outcomes := by
  simp only [ScanState.onConnect] at h
  split at h
  · cases h
  · cases h
    exact outcomes_write _ _

private theorem outcomes_serverAnswers {reply : Reply} {read : Bytes} (h : s.serverAnswers judge reply read = some t) :
    t.outcomes = s.outcomes := by
  simp only [ScanState.serverAnswers] at h
  split at h
  · cases h
  · split at h
    · cases h
    · cases h
      rfl

private theorem outcomes_step (hstep : step judge s event = some t) :
    t.outcomes = s.outcomes ∨ ∃ o, t.outcomes = (s.settle o).outcomes := by
  unfold step at hstep
  split at hstep
  · cases hstep
  cases event with
  | sourceData => exact .inl (outcomes_sourceData hstep)
  | sourceEnd => exact .inl (outcomes_sourceEnd hstep)
  | sourceError => exact (outcomes_sourceError hstep).imp_right fun h => ⟨.failed,h⟩
  | connect => exact .inl (outcomes_connect hstep)
  | drain =>
    cases hstep
    exact .inl rfl
  | socketData bytes =>
    simp only [ScanState.onSocketData] at hstep
    split at hstep
    · cases hstep
      exact .inl rfl
    · cases hstep
  | socketEnd =>
    simp only [ScanState.onSocketEnd] at hstep
    split at hstep
    · cases hstep
      exact .inr ⟨verdict s.received,rfl⟩
    · cases hstep
  | timeout =>
    cases hstep
    exact .inr ⟨.failed,rfl⟩
  | socketError =>
    cases hstep
    exact .inr ⟨.failed,rfl⟩
  | serverAnswers reply read => exact .inl (outcomes_serverAnswers hstep)
  | serverCloses =>
    simp only [ScanState.serverCloses] at hstep
    split at hstep
    · cases hstep
    · cases hstep
      exact .inl rfl

private theorem once_settle (h : s.outcomes.length ≤ 1) (o : Outcome) : (s.settle o).outcomes.length ≤ 1 := by
  rw [ScanState.settle]
  split
  · exact h
  · rename_i hopen
    have hnone : s.outcomes = [] := by simpa [ScanState.settled] using hopen
    simp [hnone]

/-- A step settles a scan only when it is open. -/
theorem once_step (h : s.outcomes.length ≤ 1) (hstep : step judge s event = some t) : t.outcomes.length ≤ 1 := by
  rcases outcomes_step hstep with heq | ⟨o,heq⟩
  · rw [heq]
    exact h
  · rw [heq]
    exact once_settle h o

/-- A scan settles at most once, and where no event leaves content out a clean verdict is one
about all the source's content. -/
theorem clean_covers_stream (judge : Bytes → Bool) (buffers : List Bytes) :
    (∀ enabled s, Run (step judge) (fun _ _ => True) (initial enabled buffers) s → s.outcomes.length ≤ 1) ∧
    ∀ s, Run (step judge) Covers (initial true buffers) s → .clean ∈ s.outcomes →
      s.judged = some buffers.flatten ∧ judge buffers.flatten = true := by
  constructor
  · intro enabled s hrun
    have hstart : (initial enabled buffers).outcomes.length ≤ 1 → s.outcomes.length ≤ 1 :=
      hrun.invariant fun s a t hs _ ht => once_step hs ht
    refine hstart ?_
    cases enabled with
    | true => exact Nat.zero_le 1
    | false => exact Nat.le_refl 1
  · intro s hrun hclean
    have hsound : Sound judge buffers.flatten s :=
      hrun.invariant (fun s a t hs ha ht => sound_step hs ha ht) (sound_initial judge buffers)
    exact hsound.answered.judged (hsound.answered.clean hclean)

instance (s : ScanState) (event : Event) : Decidable (Covers s event) := by
  unfold Covers
  split
  · split <;> infer_instance
  · infer_instance

/-- A clamd that takes the byte 1 for a virus. -/
def noOnes (content : Bytes) : Bool := !content.contains 1

def answeredScan (read : Bytes) : List Event :=
  [.serverAnswers .ok read,.socketData (Reply.render .ok),.socketEnd]

/-- A body in two buffers. -/
theorem clean_covers_stream_two : ∃ s, Run (step noOnes) Covers (initial true [[2,3],[4]]) s ∧ s.outcomes = [.clean] ∧
    s.judged = some [2,3,4] := by
  have hactions : (runActions (step noOnes) Covers (initial true [[2,3],[4]])
      ([.connect,.sourceData,.sourceData,.drain,.sourceEnd] ++
        answeredScan (command ++ frame [2,3] ++ frame [4] ++ be32 0))).map (·.outcomes) = some [.clean] := by decide +kernel
  obtain ⟨s,hs,hclean⟩ := Option.map_eq_some_iff.mp hactions
  have hrun := Run.of_actions hs
  exact ⟨s,hrun,hclean,((clean_covers_stream noOnes [[2,3],[4]]).2 s hrun (by simp [hclean])).1⟩

/-- An empty buffer is written as the end of the stream: clamd answers for nothing, and what is
behind it is passed as clean. -/
theorem empty_buffer_ends : ∃ s, Run (step noOnes) (fun _ _ => True) (initial true [[],[1]]) s ∧ s.outcomes = [.clean] ∧
    s.judged = some [] ∧ noOnes [[],[1]].flatten = false := by
  have hactions : (runActions (step noOnes) (fun _ _ => True) (initial true [[],[1]])
      ([.connect,.sourceData] ++ answeredScan (command ++ be32 0))).map (fun s => (s.outcomes,s.judged)) =
        some ([.clean],some []) := by decide +kernel
  obtain ⟨s,hs,hends⟩ := Option.map_eq_some_iff.mp hactions
  obtain ⟨hclean,hjudged⟩ := Prod.mk.inj hends
  exact ⟨s,Run.of_actions hs,hclean,hjudged,rfl⟩

end Invariants
end JustMail.Av
