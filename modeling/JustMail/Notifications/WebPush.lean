import JustMail.Foundation.CodeUnits
import JustMail.Foundation.KeyedTable
import JustMail.Foundation.Runs

/-! Web Push: the subscriptions of browsers, the fan-out of a notification to those of its
user, and whose notifications an endpoint gets. -/
namespace JustMail.Notifications
open Foundation

abbrev Uuid := Nat

structure WebPushKeys where
  p256dh : JsString
  auth : JsString
  deriving DecidableEq

structure WebPushSubscription where
  endpoint : JsString
  keys : WebPushKeys
  userAgent : Option JsString
  deriving DecidableEq

/-- A row of `web_push_subs`. -/
structure SubRow where
  id : Uuid
  userId : Uuid
  endpoint : JsString
  keys : WebPushKeys
  userAgent : Option JsString
  deriving DecidableEq

abbrev SubTable := Table SubRow.endpoint

structure VapidConfig where
  publicKey : Option JsString
  privateKey : Option JsString

/-- The argument of `publish`, less the columns that no push reads. -/
structure PublishInput where
  userId : Uuid
  kind : JsString
  title : JsString
  body : Option JsString
  url : Option JsString

structure PushPayload where
  title : JsString
  body : JsString
  url : Option JsString
  deriving DecidableEq

/-- The first argument of `webpush.sendNotification`. -/
structure PushTarget where
  endpoint : JsString
  keys : WebPushKeys
  deriving DecidableEq

inductive PushEvent where
  | subscribed (user : Uuid) (sub : WebPushSubscription)
  | unsubscribed (user : Uuid) (endpoint : JsString)
  | pruned (endpoint : JsString)
  | pushed (user : Uuid) (payload : PushPayload) (targets : List PushTarget)
  deriving DecidableEq

/-- The answer of the push service. An error need not carry a status. -/
inductive SendResult where
  | delivered
  | failed (statusCode : Option Nat)

structure PushState where
  subs : SubTable
  nextId : Uuid
  /-- Published notifications whose `pushToUser` has not read the subscriptions yet. -/
  pending : List (Uuid × PushPayload)
  /-- The rows of the sends without an answer. -/
  inFlight : List Uuid
  /-- What has happened, the latest first. -/
  history : List PushEvent

inductive PushAction where
  | subscribeWebPush (user : Uuid) (sub : WebPushSubscription)
  | unsubscribeWebPush (user : Uuid) (id : Uuid)
  | publish (input : PublishInput)
  | pushToUser (i : Nat)
  | answer (i : Nat) (result : SendResult)

def PushState.initial : PushState := ⟨.empty,0,[],[],[]⟩

def truthy (s : Option JsString) : Bool := s.any fun s => s != []

def ensureVapid (config : VapidConfig) : Bool := truthy config.publicKey && truthy config.privateKey

def toPayload (input : PublishInput) : PushPayload := ⟨input.title,input.body.getD [],input.url⟩

def SubRow.target (r : SubRow) : PushTarget := ⟨r.endpoint,r.keys⟩

/-- `INSERT .. ON CONFLICT (endpoint) DO UPDATE SET p256dh, auth, user_agent`. -/
def subscribedRow (subs : SubTable) (nextId user : Uuid) (sub : WebPushSubscription) : SubRow :=
  match subs.lookup sub.endpoint with
  | some old => { old with keys := sub.keys, userAgent := sub.userAgent }
  | none => ⟨nextId,user,sub.endpoint,sub.keys,sub.userAgent⟩

/-- `SELECT .. FROM web_push_subs WHERE user_id = $1`. -/
def subsOf (config : VapidConfig) (subs : SubTable) (user : Uuid) : List SubRow :=
  if ensureVapid config then subs.rows.filter (·.userId = user) else []

def expired : SendResult → Bool
  | .delivered => false
  | .failed statusCode => statusCode = some 404 || statusCode = some 410

def endpointsWhere (subs : SubTable) (p : SubRow → Bool) : List JsString := (subs.rows.filter p).map SubRow.endpoint

def pushStep (config : VapidConfig) (s : PushState) : PushAction → Option PushState
  | .subscribeWebPush user sub => some { s with
      subs := s.subs.upsert (subscribedRow s.subs s.nextId user sub)
      nextId := s.nextId+1
      history := .subscribed user sub :: s.history }
  | .unsubscribeWebPush user id => some { s with
      subs := s.subs.deleteWhere fun r => r.id = id && r.userId = user
      history := (endpointsWhere s.subs (·.id = id)).map (.unsubscribed user) ++ s.history }
  | .publish input => some { s with pending := s.pending ++ [(input.userId,toPayload input)] }
  | .pushToUser i => (s.pending[i]?).map fun (user,payload) => { s with
      pending := s.pending.eraseIdx i
      inFlight := s.inFlight ++ (subsOf config s.subs user).map SubRow.id
      history := .pushed user payload ((subsOf config s.subs user).map SubRow.target) :: s.history }
  | .answer i result => (s.inFlight[i]?).map fun id =>
      if expired result then { s with
        subs := s.subs.deleteWhere (·.id = id)
        inFlight := s.inFlight.eraseIdx i
        history := (endpointsWhere s.subs (·.id = id)).map .pruned ++ s.history }
      else { s with inFlight := s.inFlight.eraseIdx i }

section Subscribers

/-- The user and the keys of the last `subscribeWebPush` of an endpoint, unless that user has unsubscribed it
or it has been pruned since. -/
def lastSubscriber : List PushEvent → JsString → Option (Uuid × WebPushKeys)
  | [],_ => none
  | .subscribed user sub :: older,e => if sub.endpoint = e then some (user,sub.keys) else lastSubscriber older e
  | .unsubscribed user e' :: older,e =>
    if e' = e then (lastSubscriber older e).filter (·.1 ≠ user) else lastSubscriber older e
  | .pruned e' :: older,e => if e' = e then none else lastSubscriber older e
  | .pushed .. :: older,e => lastSubscriber older e

/-- Each notification went to the endpoints that its user had subscribed last, and to no other. -/
def FollowsLastSubscriber (history : List PushEvent) : Prop :=
  ∀ newer user payload targets older, history = newer ++ .pushed user payload targets :: older →
    ∀ t : PushTarget, t ∈ targets ↔ lastSubscriber older t.endpoint = some (user,t.keys)

/-- A browser is subscribed by the user whose row its endpoint has, or by the first one. -/
def OwnEndpoint (s : PushState) : PushAction → Prop
  | .subscribeWebPush user sub => ∀ r ∈ s.subs.lookup sub.endpoint, r.userId = user
  | .unsubscribeWebPush .. | .publish _ | .pushToUser _ | .answer .. => True

instance (s : PushState) : (a : PushAction) → Decidable (OwnEndpoint s a)
  | .subscribeWebPush .. => inferInstanceAs (Decidable (∀ _ ∈ _, _))
  | .unsubscribeWebPush .. | .publish _ | .pushToUser _ | .answer .. => inferInstanceAs (Decidable True)

variable {history older newer : List PushEvent} {user : Uuid} {e : JsString}

theorem lastSubscriber_unsubscribed (es : List JsString) : lastSubscriber (es.map (.unsubscribed user) ++ history) e =
    if e ∈ es then (lastSubscriber history e).filter (·.1 ≠ user) else lastSubscriber history e := by
  induction es with
  | nil => simp
  | cons e' es ih =>
    rw [List.map_cons,List.cons_append,lastSubscriber,ih]
    by_cases he : e' = e
    · have hnew : e ∈ e' :: es := List.mem_cons.mpr (.inl he.symm)
      rw [if_pos he,if_pos hnew]
      split
      · rw [Option.filter_filter]
        simp
      · rfl
    · rw [if_neg he]
      simp [Ne.symm he]

theorem lastSubscriber_pruned (es : List JsString) :
    lastSubscriber (es.map .pruned ++ history) e = if e ∈ es then none else lastSubscriber history e := by
  induction es with
  | nil => simp
  | cons e' es ih =>
    rw [List.map_cons,List.cons_append,lastSubscriber,ih]
    by_cases he : e' = e
    · simp [he]
    · simp [he,Ne.symm he]

theorem FollowsLastSubscriber.cons {event : PushEvent} (h : FollowsLastSubscriber history)
    (hpushed : ∀ user payload targets, event = .pushed user payload targets →
      ∀ t : PushTarget, t ∈ targets ↔ lastSubscriber history t.endpoint = some (user,t.keys)) :
    FollowsLastSubscriber (event :: history) := by
  intro newer user payload targets older he t
  rcases List.cons_eq_append_iff.mp he with ⟨rfl,hcons⟩ | ⟨newer',rfl,hrest⟩
  · cases hcons
    exact hpushed user payload targets rfl t
  · exact h newer' user payload targets older hrest t

theorem FollowsLastSubscriber.append (h : FollowsLastSubscriber history) {events : List PushEvent}
    (hevents : ∀ event ∈ events, ∀ user payload targets, event ≠ .pushed user payload targets) :
    FollowsLastSubscriber (events ++ history) := by
  induction events with
  | nil => exact h
  | cons event events ih =>
    obtain ⟨hevent,hrest⟩ := List.forall_mem_cons.mp hevents
    exact (ih hrest).cons fun user payload targets he => absurd he (hevent user payload targets)

end Subscribers

section Invariant
variable {config : VapidConfig} {s t : PushState} {subs : SubTable} {e : JsString}

theorem mem_endpointsWhere {p : SubRow → Bool} : e ∈ endpointsWhere subs p ↔ ∃ r, subs.lookup e = some r ∧ p r = true := by
  constructor
  · intro h
    obtain ⟨r,hr,rfl⟩ := List.mem_map.mp h
    obtain ⟨hmem,hp⟩ := List.mem_filter.mp hr
    exact ⟨r,Table.lookup_of_mem hmem,hp⟩
  · rintro ⟨r,hr,hp⟩
    obtain ⟨hmem,rfl⟩ := Table.lookup_eq_some.mp hr
    exact List.mem_map_of_mem (List.mem_filter.mpr ⟨hmem,hp⟩)

/-- The table holds for each endpoint its last subscriber with the keys. -/
structure PushInv (s : PushState) : Prop where
  owner : ∀ e, lastSubscriber s.history e = (s.subs.lookup e).map fun r => (r.userId,r.keys)
  follows : FollowsLastSubscriber s.history

theorem pushInv_initial : PushInv .initial where
  owner := fun _ => rfl
  follows := fun newer user payload targets older h => by simp [PushState.initial] at h

theorem subscribedRow_endpoint (subs : SubTable) (nextId user : Uuid) (sub : WebPushSubscription) :
    (subscribedRow subs nextId user sub).endpoint = sub.endpoint := by
  unfold subscribedRow
  split
  · rename_i old hold
    exact (Table.key_of_lookup hold : old.endpoint = sub.endpoint)
  · rfl

theorem subscribedRow_keys (subs : SubTable) (nextId user : Uuid) (sub : WebPushSubscription) :
    (subscribedRow subs nextId user sub).keys = sub.keys := by
  unfold subscribedRow
  split <;> rfl

theorem subscribedRow_userId (subs : SubTable) (nextId user : Uuid) (sub : WebPushSubscription) :
    (subscribedRow subs nextId user sub).userId = ((subs.lookup sub.endpoint).map SubRow.userId).getD user := by
  unfold subscribedRow
  split
  · rename_i old hold
    rw [hold]
    rfl
  · rename_i hnone
    rw [hnone]
    rfl

theorem mem_subsOf (hkeys : ensureVapid config = true) {user : Uuid} {target : PushTarget} :
    target ∈ (subsOf config subs user).map SubRow.target ↔
      (subs.lookup target.endpoint).map (fun r => (r.userId,r.keys)) = some (user,target.keys) := by
  rw [subsOf,if_pos hkeys,Option.map_eq_some_iff,List.mem_map]
  constructor
  · rintro ⟨r,hr,rfl⟩
    obtain ⟨hmem,huser⟩ := List.mem_filter.mp hr
    exact ⟨r,Table.lookup_of_mem hmem,by rw [of_decide_eq_true huser]; rfl⟩
  · rintro ⟨r,hr,hpair⟩
    obtain ⟨hmem,hendpoint⟩ := Table.lookup_eq_some.mp hr
    obtain ⟨huser,hkeys⟩ := Prod.mk.inj hpair
    exact ⟨r,List.mem_filter.mpr ⟨hmem,decide_eq_true huser⟩,by rw [SubRow.target,hendpoint,hkeys]⟩

theorem pushInv_subscribe (h : PushInv s) {user : Uuid} {sub : WebPushSubscription}
    (hown : ∀ r ∈ s.subs.lookup sub.endpoint, r.userId = user)
    (hstep : pushStep config s (.subscribeWebPush user sub) = some t) : PushInv t := by
  cases hstep
  have huser : (subscribedRow s.subs s.nextId user sub).userId = user := by
    rw [subscribedRow_userId]
    cases hold : s.subs.lookup sub.endpoint with
    | none => rfl
    | some old => exact hown old hold
  refine ⟨fun e => ?_,h.follows.cons fun _ _ _ he => PushEvent.noConfusion he⟩
  rw [Table.lookup_upsert,subscribedRow_endpoint,lastSubscriber]
  by_cases he : sub.endpoint = e
  · rw [if_pos he,if_pos he.symm,Option.map_some,huser,subscribedRow_keys]
  · rw [if_neg he,if_neg (Ne.symm he),h.owner e]

theorem pushInv_unsubscribe (h : PushInv s) {user id : Uuid}
    (hstep : pushStep config s (.unsubscribeWebPush user id) = some t) : PushInv t := by
  cases hstep
  refine ⟨fun e => ?_,h.follows.append fun event hevent _ _ _ he => ?_⟩
  · rw [Table.lookup_deleteWhere,lastSubscriber_unsubscribed,h.owner e]
    simp only [mem_endpointsWhere]
    cases hrow : s.subs.lookup e with
    | none => simp
    | some r =>
      by_cases hid : r.id = id
      · by_cases huser : r.userId = user
        · simp [Option.filter,hid,huser]
        · simp [Option.filter,hid,huser]
      · simp [Option.filter,hid]
  · obtain ⟨e,-,rfl⟩ := List.mem_map.mp hevent
    exact PushEvent.noConfusion he

theorem pushInv_push (hkeys : ensureVapid config = true) (h : PushInv s) {i : Nat}
    (hstep : pushStep config s (.pushToUser i) = some t) : PushInv t := by
  obtain ⟨⟨user,payload⟩,-,rfl⟩ := Option.map_eq_some_iff.mp hstep
  refine ⟨h.owner,h.follows.cons fun user' payload' targets he target => ?_⟩
  cases he
  rw [h.owner,mem_subsOf hkeys]

theorem pushInv_answer (h : PushInv s) {i : Nat} {result : SendResult}
    (hstep : pushStep config s (.answer i result) = some t) : PushInv t := by
  obtain ⟨id,-,rfl⟩ := Option.map_eq_some_iff.mp hstep
  split
  · refine ⟨fun e => ?_,h.follows.append fun event hevent _ _ _ he => ?_⟩
    · rw [Table.lookup_deleteWhere,lastSubscriber_pruned,h.owner e]
      simp only [mem_endpointsWhere]
      cases hrow : s.subs.lookup e with
      | none => simp
      | some r =>
        by_cases hid : r.id = id
        · simp [Option.filter,hid]
        · simp [Option.filter,hid]
    · obtain ⟨e,-,rfl⟩ := List.mem_map.mp hevent
      exact PushEvent.noConfusion he
  · exact ⟨h.owner,h.follows⟩

theorem pushInv_step (hkeys : ensureVapid config = true) (h : PushInv s) {a : PushAction} (ha : OwnEndpoint s a)
    (hstep : pushStep config s a = some t) : PushInv t := by
  cases a with
  | subscribeWebPush user sub => exact pushInv_subscribe h ha hstep
  | unsubscribeWebPush user id => exact pushInv_unsubscribe h hstep
  | publish input =>
    cases hstep
    exact ⟨h.owner,h.follows⟩
  | pushToUser i => exact pushInv_push hkeys h hstep
  | answer i result => exact pushInv_answer h hstep

/-- Along every run in which no browser changes hands, a notification goes to the endpoints that its user has
subscribed last and to no other. -/
theorem push_follows_last_subscriber (hkeys : ensureVapid config = true) (h : Run (pushStep config) OwnEndpoint .initial s) :
    FollowsLastSubscriber s.history :=
  (h.invariant (fun _ _ _ hinv ha hstep => pushInv_step hkeys hinv ha hstep) pushInv_initial).follows

def sampleConfig : VapidConfig := ⟨some (js "public"),some (js "private")⟩

def kioskSubscription (key : String) : WebPushSubscription := ⟨js "https://push.example/kiosk",⟨js key,js "auth"⟩,none⟩

/-- A user subscribes the browser, gets a notification, and the browser is gone when the next one is sent. -/
def ownBrowser : List PushAction :=
  [.subscribeWebPush 1 (kioskSubscription "key"),.publish ⟨1,js "mail",js "New message",none,none⟩,.pushToUser 0,.answer 0 .delivered,
    .publish ⟨1,js "mail",js "New message",none,none⟩,.pushToUser 0,.answer 0 (.failed (some 410))]

theorem own_browser_follows : ∃ s, Run (pushStep sampleConfig) OwnEndpoint .initial s ∧
    s.history.length = 4 ∧ FollowsLastSubscriber s.history := by
  have hrun : (runActions (pushStep sampleConfig) OwnEndpoint .initial ownBrowser).map (·.history.length) = some 4 := by decide +kernel
  obtain ⟨s,hs,hlength⟩ := Option.map_eq_some_iff.mp hrun
  have hown : Run (pushStep sampleConfig) OwnEndpoint .initial s := .of_actions hs
  exact ⟨s,hown,hlength,push_follows_last_subscriber (by decide) hown⟩

/-- User 2 signs in on the browser of user 1, who then gets a notification. -/
def sharedBrowser : List PushAction :=
  [.subscribeWebPush 1 (kioskSubscription "first"),.subscribeWebPush 2 (kioskSubscription "second"),
    .publish ⟨1,js "mail",js "New message",none,none⟩,.pushToUser 0]

theorem shared_browser_leaks :
    ¬∀ config s, ensureVapid config = true → Run (pushStep config) (fun _ _ => True) .initial s → FollowsLastSubscriber s.history := by
  intro h
  have hrun : (runActions (pushStep sampleConfig) (fun _ _ => True) .initial sharedBrowser).map (·.history) =
      some [.pushed 1 ⟨js "New message",[],none⟩ [⟨js "https://push.example/kiosk",⟨js "second",js "auth"⟩⟩],
        .subscribed 2 (kioskSubscription "second"),.subscribed 1 (kioskSubscription "first")] := by decide +kernel
  obtain ⟨s,hs,hhistory⟩ := Option.map_eq_some_iff.mp hrun
  have hfollows := (h sampleConfig s (by decide) (.of_actions hs) [] 1 _ _ _ hhistory
    ⟨js "https://push.example/kiosk",⟨js "second",js "auth"⟩⟩).mp List.mem_cons_self
  exact absurd hfollows (by decide +kernel)

end Invariant
end JustMail.Notifications
