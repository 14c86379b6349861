import JustMail.Dav.InPlace
import JustMail.Realtime.Tickets

/-! `useMailboxRealtime` of the webmail: the socket, the requests and the timers of its effect, and React, which runs the
effect again where what it depends on has changed. -/
namespace JustMail.Realtime
open Foundation JsonText

section Effect

/-- What the effect depends on. -/
structure HookDeps where
  orgId : Option JsString
  mailboxId : JsString
  folder : JsString
  enabled : Bool
  deriving DecidableEq

inductive ReadyState where
  | connecting | opened | closing | closed
  deriving DecidableEq

structure HookSocket where
  url : JsString
  readyState : ReadyState

inductive TimerCallback where
  | arm
  | ping (socket : Nat)
  | connect
  deriving DecidableEq

structure RunningTimer where
  id : Nat
  callback : TimerCallback

inductive HookOutput where
  | post (path : JsString)
  | send (text : JsString)
  | changed (event : Json)

/-- The variables of a run of the effect, and what the browser keeps for it: the `ws-ticket` requests that have no answer
yet, the sockets, and the timers that have been set and neither cleared nor, where they fire once, fired. -/
structure HookEffect where
  deps : HookDeps
  closed : Bool
  ws : Option Nat
  pingTimer : Option Nat
  reconnectTimer : Option Nat
  rearmTimer : Nat
  requests : Nat
  sockets : List HookSocket
  timers : List RunningTimer
  nextTimer : Nat

/-- `WS_BASE`, and the text that a template makes of a value. -/
structure HookEnv where
  wsBase : JsString
  textOf : Json → JsString
  textOf_string (s : JsString) : textOf (.string s) = s

def HookDeps.base (d : HookDeps) : JsString :=
  js "/v1/orgs/" ++ d.orgId.getD (js "undefined") ++ js "/webmail/mailboxes/" ++ d.mailboxId

/-- The condition under which the effect does anything. -/
def HookDeps.watched (d : HookDeps) : Bool := d.orgId.any (· ≠ []) && d.mailboxId ≠ [] && d.enabled

def HookDeps.watchPath (d : HookDeps) (folder : JsString) : JsString := d.base ++ js "/folders/" ++ folder ++ js "/watch"

def HookDeps.unwatchPath (d : HookDeps) : JsString := d.base ++ js "/unwatch"

/-- Nothing is posted where `encodeURIComponent` throws. -/
def HookDeps.arm (d : HookDeps) : List HookOutput :=
  ((Dav.encodeURIComponent d.folder).map fun folder => .post (d.watchPath folder)).toList

def isText (v : Option Json) (text : JsString) : Bool :=
  match v with
  | some (.string s) => s = text
  | _ => false

/-- Whether the handler takes the event for one of the mailbox and the folder. -/
def HookDeps.concerns (d : HookDeps) (event : Json) : Bool :=
  let data := event.get? (js "data")
  isText (data.bind (·.get? (js "mailbox_id"))) d.mailboxId && isText (data.bind (·.get? (js "folder"))) d.folder

namespace HookEffect
variable (env : HookEnv) (e : HookEffect)

def setTimer (callback : TimerCallback) : HookEffect :=
  { e with timers := e.timers ++ [⟨e.nextTimer,callback⟩], nextTimer := e.nextTimer + 1 }

def clearTimer (id : Option Nat) : HookEffect := { e with timers := e.timers.filter fun t => some t.id ≠ id }

def setReady (i : Nat) (state : ReadyState) : HookEffect :=
  { e with sockets := e.sockets.modify i fun s => { s with readyState := state } }

def ready (i : Nat) : Option ReadyState := e.sockets[i]?.map (·.readyState)

/-- `socket.close()`. -/
def closeSocket (i : Nat) : HookEffect :=
  match e.ready i with
  | some .connecting | some .opened => e.setReady i .closing
  | _ => e

/-- `connect` up to its `await`. -/
def connect : HookEffect × List HookOutput := ({ e with requests := e.requests + 1 },[.post (js "/v1/auth/ws-ticket")])

def setReconnect : HookEffect := { e.setTimer .connect with reconnectTimer := some e.nextTimer }

/-- The rest of `connect`; `none` is a request that has failed. Where `encodeURIComponent` throws nobody handles it. -/
def onTicket (answer : Option JsString) : HookEffect :=
  let e := { e with requests := e.requests - 1 }
  match answer with
  | none => if e.closed then e else e.setReconnect
  | some ticket =>
    if e.closed then e
    else match Dav.encodeURIComponent ticket with
      | none => e
      | some ticket =>
        let socket := e.sockets.length
        let url := env.wsBase ++ js "/v1/ws?" ++ js "ticket=" ++ ticket
        let e := { e with sockets := e.sockets ++ [HookSocket.mk url .connecting], ws := some socket }
        let e := e.clearTimer e.pingTimer
        { e.setTimer (.ping socket) with pingTimer := some e.nextTimer }

def onmessage (text : JsString) : List HookOutput :=
  match parse text with
  | none => []
  | some msg =>
    let op := msg.get? (js "op")
    match isText op (js "hello"),(msg.get? (js "session_id")).filter truthy with
    | true,some sessionId =>
      .send (stringify (.object [(js "op",.string (js "subscribe")),(js "topic",.string (js "session:" ++ env.textOf sessionId))])) ::
        e.deps.arm
    | _,_ =>
      match isText op (js "event"),(msg.get? (js "event")).filter truthy with
      | true,some event => if e.deps.concerns event then [.changed event] else []
      | _,_ => []

def onclose : HookEffect :=
  let e := { e.clearTimer e.pingTimer with pingTimer := none }
  if e.closed then e else e.setReconnect

/-- The connection of a socket is over: `onerror` where it has failed, and `onclose`. -/
def dropped (i : Nat) (failed : Bool) : HookEffect :=
  let e := e.setReady i .closed
  (if failed then e.closeSocket i else e).onclose

/-- The effect, for dependencies that it does something for. -/
def start (d : HookDeps) : HookEffect × List HookOutput :=
  let (e,out) := connect ⟨d,false,none,none,none,0,0,[],[],0⟩
  ({ e.setTimer .arm with rearmTimer := e.nextTimer },out)

/-- What the effect returns for React to call. -/
def cleanup : HookEffect × List HookOutput :=
  let e := { e with closed := true }
  let e := ((e.clearTimer (some e.rearmTimer)).clearTimer e.pingTimer).clearTimer e.reconnectTimer
  ((e.ws.map e.closeSocket).getD e,[.post e.deps.unwatchPath])

end HookEffect

inductive EffectAction where
  | ticket (answer : Option JsString)
  | opened (socket : Nat)
  | message (socket : Nat) (text : JsString)
  | dropped (socket : Nat) (failed : Bool)
  | timer (id : Nat)

def effectStep (env : HookEnv) (e : HookEffect) : EffectAction → Option (HookEffect × List HookOutput)
  | .ticket answer => if e.requests = 0 then none else some (e.onTicket env answer,[])
  | .opened i => if e.ready i = some .connecting then some (e.setReady i .opened,[]) else none
  | .message i text => if e.ready i = some .opened then some (e,e.onmessage env text) else none
  | .dropped i failed => if e.ready i = none ∨ e.ready i = some .closed then none else some (e.dropped i failed,[])
  | .timer id => (e.timers.find? fun t => t.id = id).map fun t => match t.callback with
    | .arm => (e,e.deps.arm)
    | .ping i => (e,if e.ready i = some .opened then [.send (stringify (.object [(js "op",.string (js "ping"))]))] else [])
    | .connect => (e.clearTimer (some id)).connect

end Effect

section Hook

/-- `rendered` is of the last render; React runs the effects for it later. `committed` is what they were last run for, and
`gone` are the runs of the effect that have been cleaned up. Each entry of the log stands beside what was committed then. -/
structure HookState where
  rendered : HookDeps
  committed : Option HookDeps
  current : Option HookEffect
  gone : List HookEffect
  unmounted : Bool
  log : List (Option HookDeps × HookOutput)

inductive HookAction where
  | render (deps : HookDeps)
  | commit
  | unmount
  | current (a : EffectAction)
  | gone (i : Nat) (a : EffectAction)

namespace HookState
variable (env : HookEnv) (s : HookState)

def write (out : List HookOutput) : HookState := { s with log := s.log ++ out.map (s.committed,·) }

def cleanup : HookState :=
  match s.current with
  | none => s
  | some e => { s with current := none, gone := s.gone ++ [e.cleanup.1] }.write e.cleanup.2

def run : HookState :=
  let s := { s with committed := some s.rendered }
  if s.rendered.watched then { s with current := some (HookEffect.start s.rendered).1 }.write (HookEffect.start s.rendered).2 else s

def mount (d : HookDeps) : HookState := ⟨d,none,none,[],false,[]⟩

end HookState

def hookStep (env : HookEnv) (s : HookState) : HookAction → Option HookState
  | .render deps => if s.unmounted then none else some { s with rendered := deps }
  | .commit => if s.unmounted ∨ s.committed = some s.rendered then none else some s.cleanup.run
  | .unmount => if s.unmounted then none else some { s.cleanup with unmounted := true, committed := none }
  | .current a => s.current.bind fun e => (effectStep env e a).map fun (e,out) => { s with current := some e }.write out
  | .gone i a => s.gone[i]?.bind fun e => (effectStep env e a).map fun (e,out) => { s with gone := s.gone.set i e }.write out

end Hook

section Statements

namespace HookEffect
variable (e : HookEffect)

/-- The sockets whose connection is not over. -/
def live : List HookSocket := e.sockets.filter fun s => s.readyState ≠ .closed

def running (p : TimerCallback → Bool) : Nat := (e.timers.filter fun t => p t.callback).length

def isPing : TimerCallback → Bool
  | .ping _ => true
  | _ => false

/-- A run of the effect that has not been cleaned up: one request, one socket or one timer for the next attempt, one timer
that arms the watcher, and one that pings as long as there is a socket. -/
structure Connected : Prop where
  isOpen : e.closed = false
  attempt : e.requests + e.live.length + e.running (· = .connect) = 1
  rearm : e.running (· = .arm) = 1
  pings : e.running isPing = e.live.length

/-- A run that has been cleaned up: no timer, and at most a request or a socket that is closing. -/
structure Detached : Prop where
  isClosed : e.closed = true
  timers : e.timers = []
  attempt : e.requests + e.live.length ≤ 1
  closing : ∀ s ∈ e.live, s.readyState = .closing

end HookEffect

structure SingleConnection (s : HookState) : Prop where
  current : ∀ e ∈ s.current, e.Connected ∧ s.committed = some e.deps
  gone : ∀ e ∈ s.gone, e.Detached

/-- The answers are tickets that `wsTicket` has signed. -/
def Issued (rt : TicketRuntime) (issued : List TicketPayload) : EffectAction → Prop
  | .ticket (some answer) => ∃ p ∈ issued, answer = rt.ticket p
  | _ => True

def HookIssued (rt : TicketRuntime) (issued : List TicketPayload) (_ : HookState) : HookAction → Prop
  | .current a | .gone _ a => Issued rt issued a
  | _ => True

/-- What is posted for the dependencies, and the events that are reported under them. -/
def HookOutput.Fits (d : HookDeps) : HookOutput → Prop
  | .post path => path = js "/v1/auth/ws-ticket" ∨ (∃ folder, Dav.encodeURIComponent d.folder = some folder ∧ path = d.watchPath folder) ∨
      path = d.unwatchPath
  | .send _ => True
  | .changed event => d.concerns event = true

/-- What has been cleaned up does nothing that anybody notices, and opens no socket. -/
structure HookState.SameOutside (s t : HookState) : Prop where
  log : t.log = s.log
  sockets : t.gone.map (·.sockets.length) = s.gone.map (·.sockets.length)

/-- All that was posted or reported was for what was committed then. What has been cleaned up adds nothing, and after the
component is gone nothing is added at all. -/
structure HookReports (env : HookEnv) (allowed : HookState → HookAction → Prop) (s : HookState) : Prop where
  fits : ∀ entry ∈ s.log, ∃ d, entry.1 = some d ∧ entry.2.Fits d
  gone : ∀ i a t, hookStep env s (.gone i a) = some t → s.SameOutside t ∧ t.current.isSome = s.current.isSome
  unmounted : s.unmounted = true → ∀ t, Run (hookStep env) allowed s t → s.SameOutside t ∧ t.current = none

/-- What the gateway sends where it has opened a connection for the ticket. -/
def helloText (p : TicketPayload) (serverTime : JsString) : JsString :=
  stringify (.object [(js "op",.string (js "hello")),(js "session_id",.string p.sessionId.text),(js "server_time",.string serverTime)])

def sessionTopic (p : TicketPayload) : JsString := js "session:" ++ p.sessionId.text

def subscribeText (topic : JsString) : JsString := stringify (.object [(js "op",.string (js "subscribe")),(js "topic",.string topic)])

/-- The URL of a socket carries a ticket that the gateway takes as long as it lasts. On the greeting that follows the hook asks
for the topic of the session, which the gateway allows, and arms the watcher. -/
structure Admitted (env : HookEnv) (rt : TicketRuntime) (e : HookEffect) (p : TicketPayload) (url : JsString) : Prop where
  url : url = env.wsBase ++ js "/v1/ws?" ++ js "ticket=" ++ rt.ticket p
  opens : ∀ now, now / 1000 ≤ p.exp → rt.onConnection (js "ticket=" ++ rt.ticket p) now =
    .opened (some (.string p.sessionId.text)) (some (.string p.userId)) (some (.array (p.orgIds.map .string)))
  greets : ∀ serverTime, e.onmessage env (helloText p serverTime) = .send (subscribeText (sessionTopic p)) :: e.deps.arm
  subscribes : ∀ now, (AuthedSocket.mk p.sessionId p.userId p.orgIds [] now true).canSubscribe (sessionTopic p) = true

end Statements

section Sockets
variable {e : HookEffect} {i : Nat} {old sockets : List HookSocket} {socket : HookSocket} {state : ReadyState}

def AllClosed (sockets : List HookSocket) : Prop := ∀ s ∈ sockets, s.readyState = .closed

theorem AllClosed.live (h : AllClosed e.sockets) : e.live = [] :=
  List.filter_eq_nil_iff.mpr fun s hs => by simp [h s hs]

theorem AllClosed.ready (h : AllClosed e.sockets) (hready : e.ready i = some state) : state = .closed := by
  obtain ⟨s,hs,rfl⟩ := Option.map_eq_some_iff.mp hready
  exact h s (List.mem_of_getElem? hs)

theorem AllClosed.append (hold : AllClosed old) (hsocket : socket.readyState = .closed) : AllClosed (old ++ [socket]) := by
  intro s hs
  rcases List.mem_append.mp hs with hs | hs
  · exact hold s hs
  · rw [List.mem_singleton.mp hs,hsocket]

theorem modify_last (old : List HookSocket) (socket : HookSocket) (f : HookSocket → HookSocket) :
    (old ++ [socket]).modify old.length f = old ++ [f socket] := by
  induction old with
  | nil => rfl
  | cons s old ih => simpa using ih

theorem ready_last (hsockets : e.sockets = old ++ [socket]) (hold : AllClosed old) (hready : e.ready i = some state)
    (hstate : state ≠ .closed) :
    i = old.length ∧ state = socket.readyState := by
  obtain ⟨s,hs,rfl⟩ := Option.map_eq_some_iff.mp hready
  rw [hsockets,getElem?_append_new] at hs
  split at hs
  · rename_i hi
    exact ⟨hi,by rw [Option.some.inj hs]⟩
  · exact absurd (hold s (List.mem_of_getElem? hs)) hstate

theorem live_last (hsockets : e.sockets = old ++ [socket]) (hold : AllClosed old) (hsocket : socket.readyState ≠ .closed) :
    e.live = [socket] := by
  have hnone : old.filter (fun s => s.readyState ≠ .closed) = [] := List.filter_eq_nil_iff.mpr fun s hs => by simp [hold s hs]
  rw [HookEffect.live,hsockets,List.filter_append,hnone]
  simp [hsocket]

/-- One more socket is done. -/
theorem live_setClosed (sockets : List HookSocket) (i : Nat) :
    ((sockets.modify i fun s => { s with readyState := .closed }).filter fun s => s.readyState ≠ .closed).Sublist
      (sockets.filter fun s => s.readyState ≠ .closed) := by
  induction sockets generalizing i with
  | nil => simp
  | cons s sockets ih =>
    cases i with
    | zero =>
      rw [List.modify_zero_cons,List.filter_cons_of_neg (by simp)]
      exact (List.sublist_cons_self s sockets).filter _
    | succ i =>
      rw [List.modify_succ_cons,List.filter_cons,List.filter_cons]
      split
      · exact (ih i).cons_cons s
      · exact ih i

theorem closeSocket_closed (hready : e.ready i = some .closed ∨ e.ready i = some .closing ∨ e.ready i = none) : e.closeSocket i = e := by
  rw [HookEffect.closeSocket]
  rcases hready with hready | hready | hready <;> rw [hready]

end Sockets

section Moves
variable {env : HookEnv} {e e' : HookEffect} {out : List HookOutput} {a : EffectAction}

/-- What a step can do. -/
inductive EffectMoved (env : HookEnv) (e : HookEffect) : EffectAction → HookEffect → List HookOutput → Prop where
  | ticket (answer : Option JsString) (requests : e.requests ≠ 0) : EffectMoved env e (.ticket answer) (e.onTicket env answer) []
  | opened (i : Nat) (ready : e.ready i = some .connecting) : EffectMoved env e (.opened i) (e.setReady i .opened) []
  | message (i : Nat) (text : JsString) (ready : e.ready i = some .opened) : EffectMoved env e (.message i text) e (e.onmessage env text)
  | dropped (i : Nat) (failed : Bool) (state : ReadyState) (ready : e.ready i = some state) (hstate : state ≠ .closed) :
      EffectMoved env e (.dropped i failed) (e.dropped i failed) []
  | arm (t : RunningTimer) (mem : t ∈ e.timers) (callback : t.callback = .arm) : EffectMoved env e (.timer t.id) e e.deps.arm
  | ping (t : RunningTimer) (mem : t ∈ e.timers) (i : Nat) (callback : t.callback = .ping i) (out : List HookOutput)
      (hout : ∀ o ∈ out, ∃ text, o = .send text) : EffectMoved env e (.timer t.id) e out
  | connect (t : RunningTimer) (mem : t ∈ e.timers) (callback : t.callback = .connect) :
      EffectMoved env e (.timer t.id) (e.clearTimer (some t.id)).connect.1 [.post (js "/v1/auth/ws-ticket")]

theorem effectStep_moved (hstep : effectStep env e a = some (e',out)) : EffectMoved env e a e' out := by
  cases a with
  | ticket answer =>
    rw [effectStep] at hstep
    split at hstep
    · simp at hstep
    · rename_i hrequests
      cases hstep
      exact .ticket answer hrequests
  | opened i =>
    rw [effectStep] at hstep
    split at hstep
    · rename_i hready
      cases hstep
      exact .opened i hready
    · simp at hstep
  | message i text =>
    rw [effectStep] at hstep
    split at hstep
    · rename_i hready
      cases hstep
      exact .message i text hready
    · simp at hstep
  | dropped i failed =>
    rw [effectStep] at hstep
    split at hstep
    · simp at hstep
    · rename_i hready
      obtain ⟨hsome,hstate⟩ := not_or.mp hready
      obtain ⟨state,hat⟩ := Option.ne_none_iff_exists'.mp hsome
      cases hstep
      exact .dropped i failed state hat fun hclosed => hstate (by rw [hat,hclosed])
  | timer id =>
    obtain ⟨t,ht,hresult⟩ := Option.map_eq_some_iff.mp hstep
    obtain rfl : t.id = id := by simpa using List.find?_some ht
    have hmem := List.mem_of_find?_eq_some ht
    split at hresult
    · rename_i hcallback
      cases hresult
      exact .arm t hmem hcallback
    · rename_i i hcallback
      cases hresult
      refine .ping t hmem i hcallback _ fun o ho => ?_
      split at ho
      · exact ⟨_,List.mem_singleton.mp ho⟩
      · simp at ho
    · rename_i hcallback
      cases hresult
      exact .connect t hmem hcallback

end Moves

section Tickets
variable {s : JsString}

/-- The units of tickets, which stand for themselves in a URL. -/
def isTicketUnit (c : CodeUnit) : Bool := c < 128 && Dav.isUriMark c.toUInt8 && c != unit '!' && !(39 ≤ c && c ≤ 42)

theorem ticket_units (rt : TicketRuntime) (p : TicketPayload) : ∀ c ∈ rt.ticket p, isTicketUnit c = true := by
  have hdigits : ∀ n < 64, isTicketUnit (base64Digit (unit '-') (unit '_') n) = true := by decide
  have hbase (bytes : List UInt8) : ∀ c ∈ base64url bytes, isTicketUnit c = true := by
    intro c hc
    obtain ⟨n,hn,rfl⟩ := mem_base64Units hc
    exact hdigits n hn
  intro c hc
  rcases List.mem_append.mp hc with hc | hc
  · exact hbase _ c hc
  · rcases List.mem_cons.mp hc with rfl | hc
    · rfl
    · exact hbase _ c hc

theorem isTicketUnit_ascii {c : CodeUnit} (hc : isTicketUnit c = true) : c < 128 := by
  simp only [isTicketUnit,Bool.and_eq_true,decide_eq_true_eq] at hc
  exact hc.1.1.1

theorem encodeURIComponent_ticket (hs : ∀ c ∈ s, isTicketUnit c = true) : Dav.encodeURIComponent s = some s := by
  have hascii : ∀ c ∈ s, c < 128 := fun c hc => isTicketUnit_ascii (hs c hc)
  have hbytes : (scalars s).flatMap String.utf8EncodeChar = s.map (·.toUInt8) := utf8Bytes_ascii hascii
  rw [Dav.encodeURIComponent,if_pos (wellFormed_ascii hascii),hbytes,List.flatMap_map]
  refine congrArg some ?_
  conv_rhs => rw [← List.flatMap_singleton' s]
  refine List.flatMap_congr fun c hc => ?_
  have hmark : Dav.isUriMark c.toUInt8 = true := by
    have hunit := hs c hc
    simp only [isTicketUnit,Bool.and_eq_true] at hunit
    exact hunit.1.1.2
  have hback : c.toUInt8.toUInt16 = c := by
    have hlt := UInt16.lt_iff_toNat_lt.mp (hascii c hc)
    refine UInt16.toNat_inj.mp ?_
    simp only [UInt8.toNat_toUInt16,UInt16.toNat_toUInt8]
    exact Nat.mod_eq_of_lt (lt_trans hlt (by decide))
  rw [if_pos hmark,hback]

/-- The bytes that nothing between the URL and the gateway changes. -/
def isPlainByte (b : UInt8) : Bool := !inQuerySet b && b != 37 && b != 38 && b != 43 && 32 < b

theorem plain_of_ticketUnit {c : CodeUnit} (hc : isTicketUnit c = true ∨ c = unit '=') :
    c < 128 ∧ isPlainByte c.toUInt8 = true ∧ 32 < c ∧ c ≠ unit '#' := by
  have hall : ∀ n < 128, isTicketUnit (UInt16.ofNat n) = true ∨ UInt16.ofNat n = unit '=' →
      isPlainByte (UInt16.ofNat n).toUInt8 = true ∧ 32 < UInt16.ofNat n ∧ UInt16.ofNat n ≠ unit '#' := by decide
  have hlt : c < 128 := by
    rcases hc with hc | rfl
    · exact isTicketUnit_ascii hc
    · decide
  have hat := hall c.toNat (UInt16.lt_iff_toNat_lt.mp hlt)
  rw [UInt16.ofNat_toNat] at hat
  exact ⟨hlt,hat hc⟩

theorem urlQuery_plain (hs : ∀ c ∈ s, isTicketUnit c = true ∨ c = unit '=') : urlQuery s = s.map (·.toUInt8) := by
  have hplain : ∀ c ∈ s, c < 128 ∧ isPlainByte c.toUInt8 = true ∧ 32 < c ∧ c ≠ unit '#' := fun c hc => plain_of_ticketUnit (hs c hc)
  have hblank : s.rdropWhile (· ≤ 32) = s := by
    refine List.rdropWhile_eq_self_iff.mpr fun hne => ?_
    simpa using (hplain _ (List.getLast_mem hne)).2.2.1
  have hfilter : s.filter (fun c => c ≠ 9 ∧ c ≠ 10 ∧ c ≠ 13) = s := by
    refine List.filter_eq_self.mpr fun c hc => ?_
    have hlt := (hplain c hc).2.2.1
    refine decide_eq_true ⟨?_,?_,?_⟩ <;> rintro rfl <;> exact absurd hlt (by decide)
  have hfragment : s.takeWhile (· ≠ unit '#') = s :=
    List.takeWhile_eq_self_iff.mpr fun c hc => by simpa using (hplain c hc).2.2.2
  rw [urlQuery,hblank,hfilter,hfragment,utf8Bytes_ascii fun c hc => (hplain c hc).1,List.flatMap_map]
  conv_rhs => rw [← List.flatMap_singleton' s,List.map_flatMap]
  refine List.flatMap_congr fun c hc => ?_
  have hbyte := (hplain c hc).2.1
  simp only [isPlainByte,Bool.and_eq_true,Bool.not_eq_true'] at hbyte
  rw [if_neg (by simp [hbyte.1.1.1.1])]
  rfl

theorem percentDecode_plain {bytes : List UInt8} (h : 37 ∉ bytes) : percentDecode 0 bytes = bytes := by
  induction bytes with
  | nil => rfl
  | cons b bytes ih =>
    rw [percentDecode,if_neg fun hb : b = 37 => h (hb ▸ List.mem_cons_self),ih fun hmem => h (List.mem_cons_of_mem b hmem)]

theorem formText_plain (hs : ∀ c ∈ s, isTicketUnit c = true) : formText (s.map (·.toUInt8)) = s := by
  have hplain : ∀ c ∈ s, c < 128 ∧ isPlainByte c.toUInt8 = true := by
    intro c hc
    obtain ⟨hlt,hbyte,-⟩ := plain_of_ticketUnit (.inl (hs c hc))
    exact ⟨hlt,hbyte⟩
  have hbytes : ∀ b ∈ s.map (·.toUInt8), b ≠ 37 ∧ b ≠ 43 := by
    intro b hb
    obtain ⟨c,hc,rfl⟩ := List.mem_map.mp hb
    have hbyte := (hplain c hc).2
    simp only [isPlainByte,Bool.and_eq_true,bne_iff_ne] at hbyte
    exact ⟨hbyte.1.1.1.2,hbyte.1.2⟩
  have hplus : (s.map (·.toUInt8)).map (fun b => if b = 43 then 32 else b) = s.map (·.toUInt8) := by
    conv_rhs => rw [← List.map_id (s.map (·.toUInt8))]
    exact List.map_congr_left fun b hb => if_neg (hbytes b hb).2
  have hascii : ∀ c ∈ s, c < 128 := fun c hc => (hplain c hc).1
  rw [formText,hplus,percentDecode_plain fun hmem => (hbytes 37 hmem).1 rfl,← utf8Bytes_ascii hascii,
    decodeLossy_utf8Bytes_wellFormed (wellFormed_ascii hascii)]

/-- A ticket in the query of a URL is read as it was put there. -/
theorem ticketParam_query (hs : ∀ c ∈ s, isTicketUnit c = true) : ticketParam (js "ticket=" ++ s) = some s := by
  have hname : ∀ c ∈ js "ticket=", isTicketUnit c = true ∨ c = unit '=' := by decide
  have hquery : urlQuery (js "ticket=" ++ s) = (js "ticket=" ++ s).map (·.toUInt8) := by
    refine urlQuery_plain fun c hc => ?_
    rcases List.mem_append.mp hc with hc | hc
    · exact hname c hc
    · exact .inl (hs c hc)
  have hamp : 38 ∉ (js "ticket=" ++ s).map (·.toUInt8) := by
    intro hmem
    obtain ⟨c,hc,hbyte⟩ := List.mem_map.mp hmem
    have hplain : isPlainByte c.toUInt8 = true := by
      rcases List.mem_append.mp hc with hc | hc
      · exact (plain_of_ticketUnit (hname c hc)).2.1
      · exact (plain_of_ticketUnit (.inl (hs c hc))).2.1
    rw [hbyte] at hplain
    exact absurd hplain (by decide)
  have hpairs : formPairs ((js "ticket=" ++ s).map (·.toUInt8)) = [(js "ticket",s)] := by
    rw [formPairs,List.splitOn_eq_singleton hamp,List.map_append,
      show (js "ticket=").map (·.toUInt8) = [116,105,99,107,101,116,61] from rfl]
    have hticket : formText [116,105,99,107,101,116] = js "ticket" := by decide
    simp [hticket,formText_plain hs]
  rw [ticketParam,searchParam,hquery,hpairs]
  rfl

theorem onConnection_ticket (rt : TicketRuntime) {p : TicketPayload} {now : Nat} (hlive : now / 1000 ≤ p.exp) :
    rt.onConnection (js "ticket=" ++ rt.ticket p) now =
      .opened (some (.string p.sessionId.text)) (some (.string p.userId)) (some (.array (p.orgIds.map .string))) := by
  rw [TicketRuntime.onConnection,verifyTicket_ticket (ticketParam_query (ticket_units rt p)) hlive]
  rfl

end Tickets

section Phases
variable {env : HookEnv} {rt : TicketRuntime} {issued : List TicketPayload} {e e' : HookEffect} {out : List HookOutput} {a : EffectAction}
variable {state : ReadyState} {i : Nat}

theorem Issued.ticket {answer : Option JsString} (h : Issued rt issued (.ticket answer)) :
    ∀ t ∈ answer, ∃ p ∈ issued, t = rt.ticket p := by
  intro t ht
  rw [Option.mem_def.mp ht] at h
  exact h

/-- Where a run of the effect is in its round of request, socket and pause. -/
inductive HookEffect.Phase (e : HookEffect) : Prop where
  | requesting (isOpen : e.closed = false) (requests : e.requests = 1) (sockets : AllClosed e.sockets) (ping : e.pingTimer = none)
      (rearm : e.rearmTimer < e.nextTimer) (timers : e.timers = [⟨e.rearmTimer,.arm⟩])
  | connected (old : List HookSocket) (socket : HookSocket) (p : Nat) (isOpen : e.closed = false) (requests : e.requests = 0)
      (sockets : e.sockets = old ++ [socket]) (hold : AllClosed old) (hsocket : socket.readyState ≠ .closed) (ws : e.ws = some old.length)
      (ping : e.pingTimer = some p) (rearm : e.rearmTimer < p) (next : p < e.nextTimer)
      (timers : e.timers = [⟨e.rearmTimer,.arm⟩,⟨p,.ping old.length⟩])
  | waiting (r : Nat) (isOpen : e.closed = false) (requests : e.requests = 0) (sockets : AllClosed e.sockets) (ping : e.pingTimer = none)
      (reconnect : e.reconnectTimer = some r) (rearm : e.rearmTimer < r) (next : r < e.nextTimer)
      (timers : e.timers = [⟨e.rearmTimer,.arm⟩,⟨r,.connect⟩])

theorem HookEffect.Phase.connected_of (h : e.Phase) : e.Connected := by
  cases h with
  | requesting isOpen requests sockets ping rearm timers =>
    exact ⟨isOpen,by simp [requests,sockets.live,HookEffect.running,timers],by simp [HookEffect.running,timers],
      by simp [sockets.live,HookEffect.running,timers,HookEffect.isPing]⟩
  | connected old socket p isOpen requests sockets hold hsocket ws ping rearm next timers =>
    have hlive := live_last sockets hold hsocket
    exact ⟨isOpen,by simp [requests,hlive,HookEffect.running,timers],by simp [HookEffect.running,timers],
      by simp [hlive,HookEffect.running,timers,HookEffect.isPing]⟩
  | waiting r isOpen requests sockets ping reconnect rearm next timers =>
    exact ⟨isOpen,by simp [requests,sockets.live,HookEffect.running,timers],by simp [HookEffect.running,timers],
      by simp [sockets.live,HookEffect.running,timers,HookEffect.isPing]⟩

theorem phase_start (d : HookDeps) : (HookEffect.start d).1.Phase :=
  .requesting rfl rfl (by simp [AllClosed,HookEffect.start,HookEffect.connect,HookEffect.setTimer]) rfl (Nat.lt_succ_self _) rfl

theorem phase_onTicket (h : e.Phase) (hrequests : e.requests ≠ 0) {answer : Option JsString}
    (hissued : ∀ t ∈ answer, ∃ p ∈ issued, t = rt.ticket p) :
    (e.onTicket env answer).Phase := by
  cases h with
  | connected _ _ _ _ requests => exact absurd requests hrequests
  | waiting _ _ requests => exact absurd requests hrequests
  | requesting isOpen requests sockets ping rearm timers =>
    cases answer with
    | none =>
      rw [HookEffect.onTicket,if_neg (by simp [isOpen])]
      exact .waiting e.nextTimer isOpen (by simp [HookEffect.setReconnect,HookEffect.setTimer,requests]) sockets ping rfl rearm
        (Nat.lt_succ_self _) (by simp [HookEffect.setReconnect,HookEffect.setTimer,timers])
    | some ticket =>
      obtain ⟨p,-,rfl⟩ := hissued _ rfl
      simp only [HookEffect.onTicket,isOpen,Bool.false_eq_true,if_false,encodeURIComponent_ticket (ticket_units rt p)]
      exact .connected e.sockets _ e.nextTimer rfl (by simp [HookEffect.clearTimer,HookEffect.setTimer,requests])
        rfl sockets (by simp) rfl rfl
        rearm (Nat.lt_succ_self _) (by simp [HookEffect.clearTimer,HookEffect.setTimer,timers,ping])

/-- A socket that is not done is the last one, and the phase is the one in which there is such a socket. -/
theorem phase_ready (h : e.Phase) (hready : e.ready i = some state) (hstate : state ≠ .closed) :
    ∃ old socket p, i = old.length ∧ socket.readyState = state ∧ e.closed = false ∧ e.requests = 0 ∧ e.sockets = old ++ [socket] ∧
      AllClosed old ∧ e.ws = some old.length ∧ e.pingTimer = some p ∧ e.rearmTimer < p ∧ p < e.nextTimer ∧
      e.timers = [⟨e.rearmTimer,.arm⟩,⟨p,.ping old.length⟩] := by
  cases h with
  | requesting _ _ sockets => exact absurd (sockets.ready hready) hstate
  | waiting _ _ _ sockets => exact absurd (sockets.ready hready) hstate
  | connected old socket p isOpen requests sockets hold hsocket ws ping rearm next timers =>
    obtain ⟨hi,hsame⟩ := ready_last sockets hold hready hstate
    exact ⟨old,socket,p,hi,hsame.symm,isOpen,requests,sockets,hold,ws,ping,rearm,next,timers⟩

theorem phase_opened (h : e.Phase) (hready : e.ready i = some .connecting) : (e.setReady i .opened).Phase := by
  obtain ⟨old,socket,p,rfl,-,isOpen,requests,sockets,hold,ws,ping,rearm,next,timers⟩ := phase_ready h hready (by simp)
  exact .connected old { socket with readyState := .opened } p isOpen requests
    (by rw [HookEffect.setReady,sockets,modify_last]) hold (by simp) ws
    ping rearm next timers

theorem ready_setReady (hready : e.ready i ≠ none) : (e.setReady i state).ready i = some state := by
  obtain ⟨s,hs⟩ := Option.ne_none_iff_exists'.mp fun hnone : e.sockets[i]? = none => hready (by rw [HookEffect.ready,hnone]; rfl)
  rw [HookEffect.ready,HookEffect.setReady,List.getElem?_modify,hs]
  simp

theorem dropped_eq (hready : e.ready i ≠ none) (failed : Bool) : e.dropped i failed = (e.setReady i .closed).onclose := by
  rw [HookEffect.dropped,closeSocket_closed (.inl (ready_setReady hready)),ite_self]

theorem phase_dropped (h : e.Phase) (hready : e.ready i = some state) (hstate : state ≠ .closed) (failed : Bool) :
    (e.dropped i failed).Phase := by
  rw [dropped_eq (by rw [hready]; simp)]
  obtain ⟨old,socket,p,rfl,-,isOpen,requests,sockets,hold,ws,ping,rearm,next,timers⟩ := phase_ready h hready hstate
  rw [HookEffect.onclose,if_neg (by simp [HookEffect.setReady,HookEffect.clearTimer,isOpen])]
  refine .waiting e.nextTimer isOpen requests ?_ rfl rfl (rearm.trans next) (Nat.lt_succ_self _) ?_
  · intro s hs
    have hclosed : s ∈ old ++ [{ socket with readyState := .closed }] := by
      rw [← modify_last old socket fun s => { s with readyState := .closed },← sockets]
      exact hs
    have hlast : ({ socket with readyState := .closed } : HookSocket).readyState = .closed := rfl
    exact hold.append hlast s hclosed
  · have hne : e.rearmTimer ≠ p := Nat.ne_of_lt rearm
    simp [HookEffect.setReconnect,HookEffect.setTimer,HookEffect.clearTimer,HookEffect.setReady,timers,ping,hne]

theorem phase_connect (h : e.Phase) {t : RunningTimer} (hmem : t ∈ e.timers) (hcallback : t.callback = .connect) :
    (e.clearTimer (some t.id)).connect.1.Phase := by
  cases h with
  | requesting _ _ _ _ _ timers =>
    rw [timers,List.mem_singleton] at hmem
    simp [hmem] at hcallback
  | connected _ _ _ _ _ _ _ _ _ _ _ _ timers =>
    rw [timers] at hmem
    rcases List.mem_cons.mp hmem with rfl | hmem
    · simp at hcallback
    · simp [List.mem_singleton.mp hmem] at hcallback
  | waiting r isOpen requests sockets ping reconnect rearm next timers =>
    rw [timers] at hmem
    rcases List.mem_cons.mp hmem with rfl | hmem
    · simp at hcallback
    · rw [List.mem_singleton.mp hmem]
      have hne : e.rearmTimer ≠ r := Nat.ne_of_lt rearm
      exact .requesting isOpen (by simp [HookEffect.connect,HookEffect.clearTimer,requests]) sockets ping (rearm.trans next)
        (by simp [HookEffect.connect,HookEffect.clearTimer,timers,hne])

theorem phase_moved (h : e.Phase) (hissued : Issued rt issued a) (hmoved : EffectMoved env e a e' out) : e'.Phase := by
  cases hmoved with
  | ticket answer requests => exact phase_onTicket h requests hissued.ticket
  | opened i ready => exact phase_opened h ready
  | message => exact h
  | dropped i failed state ready hstate => exact phase_dropped h ready hstate failed
  | arm => exact h
  | ping => exact h
  | connect t mem callback => exact phase_connect h mem callback

/-- Every timer has been cleared, and the socket is still there. -/
def HookEffect.stopped (e : HookEffect) : HookEffect :=
  ((({ e with closed := true } : HookEffect).clearTimer (some e.rearmTimer)).clearTimer e.pingTimer).clearTimer e.reconnectTimer

theorem cleanup_eq (e : HookEffect) :
    e.cleanup = ((e.ws.map e.stopped.closeSocket).getD e.stopped,[.post e.deps.unwatchPath]) := rfl

theorem stopped_timers (h : e.Phase) : e.stopped.timers = [] := by
  cases h with
  | requesting _ _ _ _ _ timers => simp [HookEffect.stopped,HookEffect.clearTimer,timers]
  | connected _ _ _ _ _ _ _ _ _ ping _ _ timers => simp [HookEffect.stopped,HookEffect.clearTimer,timers,ping]
  | waiting _ _ _ _ _ reconnect _ _ timers => simp [HookEffect.stopped,HookEffect.clearTimer,timers,reconnect]

theorem detached_allClosed (hclosed : e.closed = true) (htimers : e.timers = []) (hrequests : e.requests ≤ 1)
    (hsockets : AllClosed e.sockets) :
    e.Detached :=
  ⟨hclosed,htimers,by simpa [hsockets.live] using hrequests,by simp [hsockets.live]⟩

theorem closeSocket_allClosed (hsockets : AllClosed e.sockets) (i : Nat) : e.closeSocket i = e := by
  refine closeSocket_closed ?_
  cases hready : e.ready i with
  | none => exact .inr (.inr rfl)
  | some state => exact .inl (by rw [hsockets.ready hready])

theorem closeSocket_last {old : List HookSocket} {socket : HookSocket} (hsockets : e.sockets = old ++ [socket])
    (hsocket : socket.readyState ≠ .closed) :
    e.closeSocket old.length = { e with sockets := old ++ [{ socket with readyState := .closing }] } := by
  have hready : e.ready old.length = some socket.readyState := by simp [HookEffect.ready,hsockets]
  have hset : e.setReady old.length .closing = { e with sockets := old ++ [{ socket with readyState := .closing }] } := by
    rw [HookEffect.setReady,hsockets,modify_last]
  rw [HookEffect.closeSocket,hready]
  cases hstate : socket.readyState with
  | connecting => exact hset
  | opened => exact hset
  | closing =>
    have hsame : e.sockets = old ++ [{ socket with readyState := .closing }] := by rw [hsockets,← hstate]
    rw [← hsame]
  | closed => exact absurd hstate hsocket

/-- Without a socket in use there is nothing to close. -/
theorem cleanup_allClosed (hsockets : AllClosed e.sockets) : e.cleanup.1 = e.stopped := by
  rw [cleanup_eq]
  cases e.ws with
  | none => rfl
  | some i => exact closeSocket_allClosed (e := e.stopped) hsockets i

theorem detached_cleanup (h : e.Phase) : e.cleanup.1.Detached := by
  have htimers := stopped_timers h
  cases h with
  | connected old socket _ _ requests sockets hold hsocket ws =>
    have hstopped : e.stopped.sockets = old ++ [socket] := sockets
    rw [cleanup_eq,ws,Option.map_some,Option.getD_some,closeSocket_last hstopped hsocket]
    have hlive := live_last (e := { e.stopped with sockets := old ++ [{ socket with readyState := .closing }] }) rfl hold (by simp)
    refine ⟨rfl,htimers,?_,fun s hs => ?_⟩
    · rw [hlive]
      exact Nat.le_of_eq (congrArg (· + 1) requests)
    · rw [hlive] at hs
      rw [List.mem_singleton.mp hs]
  | requesting _ requests sockets =>
    rw [cleanup_allClosed sockets]
    exact detached_allClosed rfl htimers (Nat.le_of_eq requests) sockets
  | waiting _ _ requests sockets =>
    rw [cleanup_allClosed sockets]
    exact detached_allClosed rfl htimers (le_trans (Nat.le_of_eq requests) (Nat.zero_le 1)) sockets

theorem HookEffect.Detached.ready (h : e.Detached) {i : Nat} {state : ReadyState} (hready : e.ready i = some state) :
    state = .closed ∨ state = .closing := by
  obtain ⟨s,hs,rfl⟩ := Option.map_eq_some_iff.mp hready
  by_cases hclosed : s.readyState = .closed
  · exact .inl hclosed
  · exact .inr (h.closing s (List.mem_filter.mpr ⟨List.mem_of_getElem? hs,by simpa using hclosed⟩))

/-- What is left of a run that was cleaned up ends, and does nothing more. -/
theorem detached_moved (h : e.Detached) (hmoved : EffectMoved env e a e' out) :
    e'.Detached ∧ out = [] ∧ e'.sockets.length = e.sockets.length := by
  cases hmoved with
  | ticket answer =>
    have heq : e.onTicket env answer = { e with requests := e.requests - 1 } := by
      cases answer with
      | none => exact if_pos h.isClosed
      | some ticket => exact if_pos h.isClosed
    rw [heq]
    exact ⟨⟨h.isClosed,h.timers,le_trans (Nat.add_le_add_right (Nat.sub_le _ _) _) h.attempt,h.closing⟩,rfl,rfl⟩
  | opened i ready => simpa using h.ready ready
  | message i text ready => simpa using h.ready ready
  | dropped i failed state ready =>
    have heq : e.dropped i failed = { e.setReady i .closed with pingTimer := none } := by
      rw [dropped_eq (by rw [ready]; simp),HookEffect.onclose]
      exact (if_pos h.isClosed).trans (by simp [HookEffect.clearTimer,HookEffect.setReady,h.timers])
    have hlive : ({ e.setReady i .closed with pingTimer := none } : HookEffect).live.Sublist e.live := live_setClosed e.sockets i
    rw [heq]
    exact ⟨⟨h.isClosed,h.timers,le_trans (Nat.add_le_add_left hlive.length_le _) h.attempt,fun s hs => h.closing s (hlive.subset hs)⟩,rfl,
      List.length_modify ..⟩
  | arm t mem => simp [h.timers] at mem
  | ping t mem => simp [h.timers] at mem
  | connect t mem => simp [h.timers] at mem

theorem arm_fits (d : HookDeps) : ∀ o ∈ d.arm, o.Fits d := by
  intro o ho
  obtain ⟨folder,hfolder,rfl⟩ := Option.map_eq_some_iff.mp (Option.mem_toList.mp ho)
  exact .inr (.inl ⟨folder,hfolder,rfl⟩)

theorem onmessage_fits (env : HookEnv) (e : HookEffect) (text : JsString) : ∀ o ∈ e.onmessage env text, o.Fits e.deps := by
  intro o ho
  rw [HookEffect.onmessage] at ho
  split at ho
  · simp at ho
  · dsimp only at ho
    split at ho
    · rcases List.mem_cons.mp ho with rfl | ho
      · trivial
      · exact arm_fits e.deps o ho
    · split at ho
      · split at ho
        · rename_i hconcerns
          rw [List.mem_singleton.mp ho]
          exact hconcerns
        · simp at ho
      · simp at ho

theorem closeSocket_deps (i : Nat) : (e.closeSocket i).deps = e.deps := by
  rw [HookEffect.closeSocket]
  split <;> rfl

theorem onclose_deps (e : HookEffect) : e.onclose.deps = e.deps := by
  rw [HookEffect.onclose]
  split <;> rfl

theorem dropped_deps (i : Nat) (failed : Bool) : (e.dropped i failed).deps = e.deps := by
  rw [HookEffect.dropped,onclose_deps]
  split
  · exact closeSocket_deps i
  · rfl

theorem onTicket_deps (answer : Option JsString) : (e.onTicket env answer).deps = e.deps := by
  cases answer with
  | none =>
    rw [HookEffect.onTicket]
    split <;> rfl
  | some ticket =>
    simp only [HookEffect.onTicket]
    split
    · rfl
    · split <;> rfl

theorem outputs_fit (hmoved : EffectMoved env e a e' out) : e'.deps = e.deps ∧ ∀ o ∈ out, o.Fits e.deps := by
  cases hmoved with
  | ticket answer => exact ⟨onTicket_deps answer,by simp⟩
  | opened => exact ⟨rfl,by simp⟩
  | message i text => exact ⟨rfl,onmessage_fits env e text⟩
  | dropped i failed => exact ⟨dropped_deps i failed,by simp⟩
  | arm => exact ⟨rfl,arm_fits e.deps⟩
  | ping t mem i callback out hout =>
    refine ⟨rfl,fun o ho => ?_⟩
    obtain ⟨text,rfl⟩ := hout o ho
    trivial
  | connect =>
    refine ⟨rfl,fun o ho => ?_⟩
    rw [List.mem_singleton.mp ho]
    exact .inl rfl

/-- The URL is made with a ticket that was issued. -/
def MintedUrl (env : HookEnv) (rt : TicketRuntime) (issued : List TicketPayload) (url : JsString) : Prop :=
  ∃ p ∈ issued, url = env.wsBase ++ js "/v1/ws?" ++ js "ticket=" ++ rt.ticket p

def MintedUrls (env : HookEnv) (rt : TicketRuntime) (issued : List TicketPayload) (e : HookEffect) : Prop :=
  ∀ s ∈ e.sockets, MintedUrl env rt issued s.url

theorem mintedUrls_setReady (h : MintedUrls env rt issued e) (i : Nat) (state : ReadyState) :
    MintedUrls env rt issued (e.setReady i state) := by
  intro s hs
  obtain ⟨old,hold,rfl | rfl⟩ := mem_modify hs
  · exact h _ hold
  · exact h old hold

theorem mintedUrls_closeSocket (h : MintedUrls env rt issued e) (i : Nat) : MintedUrls env rt issued (e.closeSocket i) := by
  rw [HookEffect.closeSocket]
  split
  · exact mintedUrls_setReady h i .closing
  · exact mintedUrls_setReady h i .closing
  · exact h

theorem mintedUrls_onclose (h : MintedUrls env rt issued e) : MintedUrls env rt issued e.onclose := by
  rw [HookEffect.onclose]
  split <;> exact h

theorem mintedUrls_onTicket (h : MintedUrls env rt issued e) {answer : Option JsString}
    (hissued : ∀ t ∈ answer, ∃ p ∈ issued, t = rt.ticket p) :
    MintedUrls env rt issued (e.onTicket env answer) := by
  cases answer with
  | none =>
    rw [HookEffect.onTicket]
    split <;> exact h
  | some ticket =>
    obtain ⟨p,hp,rfl⟩ := hissued _ rfl
    simp only [HookEffect.onTicket,encodeURIComponent_ticket (ticket_units rt p)]
    split
    · exact h
    · intro s hs
      rcases List.mem_append.mp hs with hs | hs
      · exact h s hs
      · rw [List.mem_singleton.mp hs]
        exact ⟨p,hp,rfl⟩

theorem mintedUrls_moved (h : MintedUrls env rt issued e) (hissued : Issued rt issued a) (hmoved : EffectMoved env e a e' out) :
    MintedUrls env rt issued e' := by
  cases hmoved with
  | ticket answer => exact mintedUrls_onTicket h hissued.ticket
  | opened i => exact mintedUrls_setReady h i .opened
  | message => exact h
  | dropped i failed =>
    have hclosed := mintedUrls_setReady h i .closed
    rw [HookEffect.dropped]
    refine mintedUrls_onclose ?_
    split
    · exact mintedUrls_closeSocket hclosed i
    · exact hclosed
  | arm => exact h
  | ping => exact h
  | connect => exact h

theorem mintedUrls_cleanup (h : MintedUrls env rt issued e) : MintedUrls env rt issued e.cleanup.1 := by
  rw [cleanup_eq]
  cases e.ws with
  | none => exact h
  | some i => exact mintedUrls_closeSocket (e := e.stopped) h i

end Phases

section Runs
variable {env : HookEnv} {rt : TicketRuntime} {issued : List TicketPayload} {s t : HookState}

structure HookInv (env : HookEnv) (rt : TicketRuntime) (issued : List TicketPayload) (s : HookState) : Prop where
  current : ∀ e ∈ s.current, e.Phase ∧ s.committed = some e.deps ∧ MintedUrls env rt issued e
  gone : ∀ e ∈ s.gone, e.Detached ∧ MintedUrls env rt issued e
  log : ∀ entry ∈ s.log, ∃ d, entry.1 = some d ∧ entry.2.Fits d
  unmounted : s.unmounted = true → s.current = none

theorem fits_write {out : List HookOutput} {d : HookDeps} (hlog : ∀ entry ∈ s.log, ∃ d, entry.1 = some d ∧ entry.2.Fits d)
    (hcommitted : s.committed = some d) (hout : ∀ o ∈ out, o.Fits d) :
    ∀ entry ∈ (s.write out).log, ∃ d, entry.1 = some d ∧ entry.2.Fits d := by
  intro entry hentry
  rcases List.mem_append.mp hentry with hentry | hentry
  · exact hlog entry hentry
  · obtain ⟨o,ho,rfl⟩ := List.mem_map.mp hentry
    exact ⟨d,hcommitted,hout o ho⟩

theorem hookInv_cleanup (h : HookInv env rt issued s) : HookInv env rt issued s.cleanup ∧ s.cleanup.current = none := by
  rw [HookState.cleanup]
  split
  · rename_i hnone
    exact ⟨h,hnone⟩
  · rename_i e he
    obtain ⟨hphase,hcommitted,hurls⟩ := h.current e he
    refine ⟨⟨by simp [HookState.write],fun e' he' => ?_,fits_write h.log hcommitted ?_,fun _ => rfl⟩,rfl⟩
    · rcases List.mem_append.mp he' with he' | he'
      · exact h.gone e' he'
      · rw [List.mem_singleton.mp he']
        exact ⟨detached_cleanup hphase,mintedUrls_cleanup hurls⟩
    · intro o ho
      rw [List.mem_singleton.mp ho]
      exact .inr (.inr rfl)

theorem hookInv_run (h : HookInv env rt issued s) (hcurrent : s.current = none) (hmounted : s.unmounted = false) :
    HookInv env rt issued s.run := by
  rw [HookState.run]
  split
  · refine ⟨fun e he => ?_,h.gone,fits_write h.log rfl ?_,fun hunmounted => by simp [HookState.write,hmounted] at hunmounted⟩
    · cases he
      exact ⟨phase_start s.rendered,rfl,by simp [MintedUrls,HookEffect.start,HookEffect.connect,HookEffect.setTimer]⟩
    · intro o ho
      rw [List.mem_singleton.mp ho]
      exact .inl rfl
  · exact ⟨fun e he => by simp [hcurrent] at he,h.gone,h.log,h.unmounted⟩

theorem hookInv_step {a : HookAction} (h : HookInv env rt issued s) (hissued : HookIssued rt issued s a)
    (hstep : hookStep env s a = some t) :
    HookInv env rt issued t := by
  cases a with
  | render deps =>
    rw [hookStep] at hstep
    split at hstep
    · simp at hstep
    · cases hstep
      exact ⟨h.current,h.gone,h.log,h.unmounted⟩
  | commit =>
    rw [hookStep] at hstep
    split at hstep
    · simp at hstep
    · rename_i hmounted
      cases hstep
      obtain ⟨hinv,hnone⟩ := hookInv_cleanup h
      refine hookInv_run hinv hnone ?_
      have hfalse : s.unmounted = false := by simpa using (not_or.mp hmounted).1
      rw [HookState.cleanup]
      split <;> exact hfalse
  | unmount =>
    rw [hookStep] at hstep
    split at hstep
    · simp at hstep
    · cases hstep
      obtain ⟨hinv,hnone⟩ := hookInv_cleanup h
      exact ⟨fun e he => by simp [hnone] at he,hinv.gone,hinv.log,fun _ => hnone⟩
  | current a =>
    obtain ⟨e,he,hmap⟩ := Option.bind_eq_some_iff.mp hstep
    obtain ⟨⟨e',out⟩,heffect,rfl⟩ := Option.map_eq_some_iff.mp hmap
    obtain ⟨hphase,hcommitted,hurls⟩ := h.current e he
    have hmoved := effectStep_moved heffect
    obtain ⟨hdeps,hfits⟩ := outputs_fit hmoved
    refine ⟨fun e'' he'' => ?_,h.gone,fits_write h.log hcommitted hfits,fun hunmounted => ?_⟩
    · cases he''
      exact ⟨phase_moved hphase hissued hmoved,hcommitted.trans (by rw [hdeps]),mintedUrls_moved hurls hissued hmoved⟩
    · simp [h.unmounted hunmounted] at he
  | gone i a =>
    obtain ⟨e,he,hmap⟩ := Option.bind_eq_some_iff.mp hstep
    obtain ⟨⟨e',out⟩,heffect,rfl⟩ := Option.map_eq_some_iff.mp hmap
    obtain ⟨hdetached,hurls⟩ := h.gone e (List.mem_of_getElem? he)
    have hmoved := effectStep_moved heffect
    obtain ⟨hdetached',rfl,-⟩ := detached_moved hdetached hmoved
    refine ⟨h.current,fun e'' he'' => ?_,by simpa [HookState.write] using h.log,h.unmounted⟩
    rcases List.mem_or_eq_of_mem_set he'' with he'' | rfl
    · exact h.gone e'' he''
    · exact ⟨hdetached',mintedUrls_moved hurls hissued hmoved⟩

theorem hookInv_run_of {d : HookDeps} (hrun : Run (hookStep env) (HookIssued rt issued) (.mount d) s) : HookInv env rt issued s :=
  hrun.invariant (fun _ _ _ h hissued hstep => hookInv_step h hissued hstep)
    ⟨by simp [HookState.mount],by simp [HookState.mount],by simp [HookState.mount],by simp [HookState.mount]⟩

/-- However renders, unmounting, answers, sockets and timers interleave, there is one connection or one attempt at it, and what
was cleaned up earlier has no timer and no socket in use. -/
theorem single_connection {d : HookDeps} (hrun : Run (hookStep env) (HookIssued rt issued) (.mount d) s) : SingleConnection s := by
  have hinv := hookInv_run_of hrun
  exact ⟨fun e he => ⟨(hinv.current e he).1.connected_of,(hinv.current e he).2.1⟩,fun e he => (hinv.gone e he).1⟩

theorem sameOutside_gone (h : HookInv env rt issued s) {i : Nat} {a : EffectAction} (hstep : hookStep env s (.gone i a) = some t) :
    s.SameOutside t ∧ t.current = s.current ∧ t.unmounted = s.unmounted := by
  obtain ⟨e,he,hmap⟩ := Option.bind_eq_some_iff.mp hstep
  obtain ⟨⟨e',out⟩,heffect,rfl⟩ := Option.map_eq_some_iff.mp hmap
  obtain ⟨-,rfl,hlength⟩ := detached_moved (h.gone e (List.mem_of_getElem? he)).1 (effectStep_moved heffect)
  refine ⟨⟨by simp [HookState.write],?_⟩,rfl,rfl⟩
  refine List.ext_getElem? fun j => ?_
  dsimp only [HookState.write]
  rw [List.getElem?_map,List.getElem?_map,getElem?_set_of_some he]
  split
  · rename_i hj
    rw [hj,he,Option.map_some,Option.map_some,hlength]
  · rfl

/-- Nothing is left of a component that is gone but requests and sockets that come to their end. -/
theorem sameOutside_unmounted (h : HookInv env rt issued s) (hunmounted : s.unmounted = true)
    (hrun : Run (hookStep env) (HookIssued rt issued) s t) : s.SameOutside t ∧ t.current = none := by
  have hkept : HookInv env rt issued t ∧ t.unmounted = true ∧ s.SameOutside t := by
    refine @Run.invariant _ _ _ _ _ _ (fun t => HookInv env rt issued t ∧ t.unmounted = true ∧ s.SameOutside t) ?_ hrun
      ⟨h,hunmounted,rfl,rfl⟩
    rintro t a u ⟨hinv,hgone,hsame⟩ hissued hstep
    have hinv' := hookInv_step hinv hissued hstep
    cases a with
    | render deps => simp [hookStep,hgone] at hstep
    | commit => simp [hookStep,hgone] at hstep
    | unmount => simp [hookStep,hgone] at hstep
    | current a => simp [hookStep,hinv.unmounted hgone] at hstep
    | gone i a =>
      obtain ⟨hout,-,hstill⟩ := sameOutside_gone hinv hstep
      exact ⟨hinv',hstill.trans hgone,hout.log.trans hsame.log,hout.sockets.trans hsame.sockets⟩
  exact ⟨hkept.2.2,hkept.1.unmounted hkept.2.1⟩

theorem hook_reports {d : HookDeps} (hrun : Run (hookStep env) (HookIssued rt issued) (.mount d) s) :
    HookReports env (HookIssued rt issued) s := by
  have hinv := hookInv_run_of hrun
  refine ⟨hinv.log,fun i a t hstep => ?_,fun hunmounted t hlater => sameOutside_unmounted hinv hunmounted hlater⟩
  obtain ⟨hsame,hcurrent,-⟩ := sameOutside_gone hinv hstep
  exact ⟨hsame,by rw [hcurrent]⟩

theorem onmessage_hello (env : HookEnv) (e : HookEffect) (p : TicketPayload) (serverTime : JsString) :
    e.onmessage env (helloText p serverTime) = .send (subscribeText (sessionTopic p)) :: e.deps.arm := by
  have hne : p.sessionId.text ≠ [] := by
    intro hempty
    simpa [hempty] using p.sessionId.length
  let hello : Json := .object [(js "op",.string (js "hello")),(js "session_id",.string p.sessionId.text),
    (js "server_time",.string serverTime)]
  have hop : hello.get? (js "op") = some (.string (js "hello")) := rfl
  have hsession : hello.get? (js "session_id") = some (.string p.sessionId.text) := rfl
  have htruthy : truthy (.string p.sessionId.text) = true := decide_eq_true hne
  rw [HookEffect.onmessage,helloText,parse_stringify]
  dsimp only
  rw [hop,hsession,Option.filter_some,if_pos htruthy]
  simp only [isText,decide_true,env.textOf_string]
  rfl

/-- Every socket of the hook is one that the gateway opens for the session of the ticket and that gets the topic it asks for. -/
theorem sockets_admitted {d : HookDeps} (hrun : Run (hookStep env) (HookIssued rt issued) (.mount d) s) :
    ∀ e ∈ s.current.toList ++ s.gone, ∀ socket ∈ e.sockets, ∃ p ∈ issued, Admitted env rt e p socket.url := by
  have hinv := hookInv_run_of hrun
  intro e he socket hsocket
  have hurls : MintedUrls env rt issued e := by
    rcases List.mem_append.mp he with he | he
    · exact (hinv.current e (Option.mem_toList.mp he)).2.2
    · exact (hinv.gone e he).2
  obtain ⟨p,hp,hurl⟩ := hurls socket hsocket
  refine ⟨p,hp,hurl,fun now hlive => onConnection_ticket rt hlive,onmessage_hello env e p,fun now => ?_⟩
  have horg : (js "org:").isPrefixOf (sessionTopic p) = false := rfl
  rw [AuthedSocket.canSubscribe,horg,if_neg (by simp)]
  simp [sessionTopic]

instance (rt : TicketRuntime) (issued : List TicketPayload) : (a : EffectAction) → Decidable (Issued rt issued a)
  | .ticket (some answer) => inferInstanceAs (Decidable (∃ p ∈ issued, answer = rt.ticket p))
  | .ticket none | .opened _ | .message _ _ | .dropped _ _ | .timer _ => inferInstanceAs (Decidable True)

instance (rt : TicketRuntime) (issued : List TicketPayload) (s : HookState) : (a : HookAction) → Decidable (HookIssued rt issued s a)
  | .current a => inferInstanceAs (Decidable (Issued rt issued a))
  | .gone _ a => inferInstanceAs (Decidable (Issued rt issued a))
  | .render _ | .commit | .unmount => inferInstanceAs (Decidable True)

def mailEnv : HookEnv where
  wsBase := js "wss://mail"
  textOf
    | .string s => s
    | _ => []
  textOf_string _ := rfl

def folderDeps (folder : String) : HookDeps := ⟨some (js "o"),js "m",js folder,true⟩

def HookOutput.text : HookOutput → JsString
  | .post path => path
  | .send text => text
  | .changed _ => js "changed"

/-- The folder is opened, a ticket is answered, and the socket opens. -/
def connecting : List HookAction :=
  [.commit,.current (.ticket (some (sampleRuntime.ticket samplePayload))),.current (.opened 0)]

/-- Another folder is opened while the first socket is in use, its first request fails, and it is closed during the pause. -/
def leaving : List HookAction :=
  connecting ++ [.current (.timer 0),.render (folderDeps "Sent"),.commit,.gone 0 (.dropped 0 false),.current (.ticket none),.unmount]

theorem socket_opens : ∃ s, Run (hookStep mailEnv) (HookIssued sampleRuntime [samplePayload]) (.mount (folderDeps "INBOX")) s ∧
    s.current.map (fun e => (e.requests,e.ready 0,e.timers.length)) = some (0,some .opened,2) ∧ SingleConnection s := by
  have hactions : (runActions (hookStep mailEnv) (HookIssued sampleRuntime [samplePayload]) (.mount (folderDeps "INBOX")) connecting).map
      (fun s => s.current.map fun e => (e.requests,e.ready 0,e.timers.length)) = some (some (0,some .opened,2)) := by decide +kernel
  obtain ⟨s,hs,hcurrent⟩ := Option.map_eq_some_iff.mp hactions
  have hrun := Run.of_actions hs
  exact ⟨s,hrun,hcurrent,single_connection hrun⟩

theorem folder_left : ∃ s, Run (hookStep mailEnv) (HookIssued sampleRuntime [samplePayload]) (.mount (folderDeps "INBOX")) s ∧
    s.log.map (fun entry => entry.2.text) = [js "/v1/auth/ws-ticket",(folderDeps "INBOX").watchPath (js "INBOX"),
      (folderDeps "INBOX").unwatchPath,js "/v1/auth/ws-ticket",(folderDeps "Sent").unwatchPath] ∧
    HookReports mailEnv (HookIssued sampleRuntime [samplePayload]) s := by
  have hactions : (runActions (hookStep mailEnv) (HookIssued sampleRuntime [samplePayload]) (.mount (folderDeps "INBOX")) leaving).map
      (fun s => s.log.map fun entry => entry.2.text) = some [js "/v1/auth/ws-ticket",(folderDeps "INBOX").watchPath (js "INBOX"),
        (folderDeps "INBOX").unwatchPath,js "/v1/auth/ws-ticket",(folderDeps "Sent").unwatchPath] := by decide +kernel
  obtain ⟨s,hs,hlog⟩ := Option.map_eq_some_iff.mp hactions
  have hrun := Run.of_actions hs
  exact ⟨s,hrun,hlog,hook_reports hrun⟩

theorem socket_admitted : ∃ s, Run (hookStep mailEnv) (HookIssued sampleRuntime [samplePayload]) (.mount (folderDeps "INBOX")) s ∧
    (∃ e ∈ s.current, e.sockets.length = 1) ∧
    ∀ e ∈ s.current.toList ++ s.gone, ∀ socket ∈ e.sockets, ∃ p ∈ [samplePayload], Admitted mailEnv sampleRuntime e p socket.url := by
  have hactions : (runActions (hookStep mailEnv) (HookIssued sampleRuntime [samplePayload]) (.mount (folderDeps "INBOX")) connecting).map
      (fun s => s.current.map fun e => e.sockets.length) = some (some 1) := by decide +kernel
  obtain ⟨s,hs,hcurrent⟩ := Option.map_eq_some_iff.mp hactions
  obtain ⟨e,he,hlength⟩ := Option.map_eq_some_iff.mp hcurrent
  have hrun := Run.of_actions hs
  exact ⟨s,hrun,⟨e,he,hlength⟩,sockets_admitted hrun⟩

end Runs
end JustMail.Realtime
