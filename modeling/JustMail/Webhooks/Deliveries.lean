import JustMail.Foundation.KeyedTable
import JustMail.Webhooks.Ssrf

/-! `webhooks/webhooks.service.ts`: the tick that works off the due deliveries of all tenants. -/
namespace JustMail.Webhooks
open Foundation

section Model

/-- A row of `webhook_endpoints`. Times are in microseconds. -/
structure EndpointRow where
  id : JsString
  orgId : JsString
  url : JsString
  secretEnc : JsString
  lastDeliveredAt : Option Int
  lastStatus : Option Nat
  failureCount : Nat
  deriving DecidableEq

/-- A row of `webhook_deliveries`. -/
structure DeliveryRow (Json : Type) where
  id : JsString
  endpointId : JsString
  event : JsString
  payload : Json
  status : Option Nat
  attempts : Nat
  nextAttemptAt : Option Int
  deliveredAt : Option Int
  lastError : Option JsString
  deriving DecidableEq

structure Queue (Json : Type) where
  endpoints : Table EndpointRow.id
  deliveries : Table (DeliveryRow.id : DeliveryRow Json → JsString)

structure WebhookPost where
  url : JsString
  event : JsString
  signature : JsString
  body : JsString

/-- What `node:crypto` does: the decoding of base64url, AES-256-GCM under the key of the platform, and HMAC. -/
structure Crypto where
  fromBase64url : JsString → List Nat
  decipher : List Nat → List Nat → List Nat → Option JsString
  hmac : JsString → JsString → JsString

variable {Json : Type}

/-- What a tick meets. The joined rows come in no particular order; `finishedAt` is `Date.now()` when the request of a
delivery has ended, and `committedAt` the `now()` of the transaction that follows. The clocks of the process and of the
database are less than a minute apart. -/
structure TickEnv (Json : Type) where
  now : Int
  order : List (DeliveryRow Json × EndpointRow) → List (DeliveryRow Json × EndpointRow)
  crypto : Crypto
  bodyStr : DeliveryRow Json → JsString
  urls : JsString → UrlEnv
  fetch : JsString → WebhookPost → Except JsString Nat
  finishedAt : JsString → Int
  committedAt : JsString → Int
  order_perm (rows : List (DeliveryRow Json × EndpointRow)) : (order rows).Perm rows
  now_lt (id : JsString) : now < (finishedAt id + 60*1000)*1000

/-- `open` of the secretbox. -/
def Crypto.openSecret (c : Crypto) (text : JsString) : Option JsString :=
  match (text.splitOn FULL_STOP).map c.fromBase64url with
  | iv :: ct :: tag :: _ => c.decipher iv ct tag
  | _ => none

def MAX_ATTEMPTS : Nat := 6

/-- Progressive backoff (seconds). -/
def BACKOFF : List Nat := [10,60,300,1800,7200,21600]

/-- In milliseconds, as `Date.now()` is. -/
def nextRetry (now : Int) (attempts : Nat) : Int := now + (BACKOFF[min attempts (BACKOFF.length-1)]?).getD 3600 * 1000

def isReady (now : Int) (d : DeliveryRow Json) : Bool := d.deliveredAt.isNone && d.nextAttemptAt.any fun t => decide (t ≤ now)

def Queue.ready (q : Queue Json) (now : Int) : List (DeliveryRow Json × EndpointRow) :=
  (q.deliveries.rows.filter (isReady now)).filterMap fun d => (q.endpoints.lookup d.endpointId).map (d,·)

def earlier (r r' : DeliveryRow Json × EndpointRow) : Bool := decide (r.1.nextAttemptAt.getD 0 ≤ r'.1.nextAttemptAt.getD 0)

/-- `ORDER BY d.next_attempt_at LIMIT 50`. -/
def Queue.batch (q : Queue Json) (e : TickEnv Json) : List (DeliveryRow Json × EndpointRow) :=
  ((e.order (q.ready e.now)).mergeSort earlier).take 50

variable (cm : CaseMapping) (e : TickEnv Json)

/-- The `try` of a delivery: the status of the answer, or the text of the error. -/
def postDelivery (r : DeliveryRow Json × EndpointRow) (secret : JsString) : Except JsString Nat :=
  let bodyStr := e.bodyStr r.1
  let sig := e.crypto.hmac secret bodyStr
  match assertPublicHttpUrl cm (e.urls r.1.id) r.2.url with
  | .error message => .error (message.take 500)
  | .ok () =>
    match e.fetch r.1.id ⟨r.2.url,r.1.event,js "sha256=" ++ sig,bodyStr⟩ with
    | .error message => .error (message.take 500)
    | .ok status => .ok status

def succeeds : Except JsString Nat → Bool
  | .ok status => 200 ≤ status && status < 300
  | .error _ => false

/-- `errMsg ?? "HTTP " + status`. -/
def lastErrorOf : Except JsString Nat → JsString
  | .ok status => js "HTTP " ++ decimal status
  | .error errMsg => errMsg

/-- `UPDATE webhook_deliveries SET ..`, after a success and after a failure. -/
def updateDelivery (r : DeliveryRow Json × EndpointRow) (res : Except JsString Nat) (d : DeliveryRow Json) : DeliveryRow Json :=
  let attempts := r.1.attempts + 1
  if succeeds res then
    { d with status := res.toOption, attempts := attempts, deliveredAt := some (e.committedAt r.1.id),
             nextAttemptAt := none, lastError := none }
  else
    let next := if attempts ≥ MAX_ATTEMPTS then none else some (nextRetry (e.finishedAt r.1.id) attempts)
    { d with status := res.toOption, attempts := attempts, nextAttemptAt := next.map (·*1000), lastError := some (lastErrorOf res) }

/-- `UPDATE webhook_endpoints SET ..`. -/
def updateEndpoint (r : DeliveryRow Json × EndpointRow) (res : Except JsString Nat) (p : EndpointRow) : EndpointRow :=
  if succeeds res then { p with lastDeliveredAt := some (e.committedAt r.1.id), lastStatus := res.toOption, failureCount := 0 }
  else { p with lastStatus := res.toOption, failureCount := p.failureCount + 1 }

theorem id_updateDelivery (r : DeliveryRow Json × EndpointRow) (res : Except JsString Nat) (d : DeliveryRow Json) :
    (updateDelivery e r res d).id = d.id := by
  unfold updateDelivery
  split <;> rfl

theorem id_updateEndpoint (r : DeliveryRow Json × EndpointRow) (res : Except JsString Nat) (p : EndpointRow) :
    (updateEndpoint e r res p).id = p.id := by
  unfold updateEndpoint
  split <;> rfl

/-- The transaction that follows the request. -/
def Queue.record (q : Queue Json) (r : DeliveryRow Json × EndpointRow) (res : Except JsString Nat) : Queue Json where
  deliveries := q.deliveries.updateWhere (·.id == r.1.id) (updateDelivery e r res) (id_updateDelivery e r res)
  endpoints := q.endpoints.updateWhere (·.id == r.1.endpointId) (updateEndpoint e r res) (id_updateEndpoint e r res)

/-- The loop of `tick`. Nothing is returned where it throws. -/
def workOff : List (DeliveryRow Json × EndpointRow) → Queue Json → Nat → Nat → Queue Json × Option (Nat × Nat)
  | [],q,delivered,failed => (q,some (delivered,failed))
  | r :: rest,q,delivered,failed =>
    match e.crypto.openSecret r.2.secretEnc with
    | none => (q,none)
    | some secret =>
      let res := postDelivery cm e r secret
      if succeeds res then workOff rest (q.record e r res) (delivered+1) failed
      else workOff rest (q.record e r res) delivered (failed+1)

/-- Attempt to deliver every ready delivery. -/
def Queue.tick (q : Queue Json) : Queue Json × Option (Nat × Nat) := workOff cm e (q.batch e) q 0 0

end Model
section Batch
variable {Json : Type} {q : Queue Json} {e : TickEnv Json} {r r' : DeliveryRow Json × EndpointRow}

theorem isReady_iff {now : Int} {d : DeliveryRow Json} :
    isReady now d = true ↔ d.deliveredAt = none ∧ ∃ t, d.nextAttemptAt = some t ∧ t ≤ now := by
  rw [isReady,Bool.and_eq_true,Option.isNone_iff_eq_none,Option.any_eq_true]
  simp only [decide_eq_true_eq]

theorem mem_ready {now : Int} : r ∈ q.ready now ↔
    r.1 ∈ q.deliveries.rows ∧ isReady now r.1 = true ∧ q.endpoints.lookup r.1.endpointId = some r.2 := by
  obtain ⟨d,p⟩ := r
  rw [Queue.ready,List.mem_filterMap]
  constructor
  · rintro ⟨d',hd',hp⟩
    obtain ⟨p',hp',heq⟩ := Option.map_eq_some_iff.mp hp
    cases heq
    exact ⟨(List.mem_filter.mp hd').1,(List.mem_filter.mp hd').2,hp'⟩
  · rintro ⟨hd,hready,hp⟩
    exact ⟨d,List.mem_filter.mpr ⟨hd,hready⟩,by rw [hp]; rfl⟩

theorem ready_of_mem_batch (h : r ∈ q.batch e) : r ∈ q.ready e.now :=
  (e.order_perm _).mem_iff.mp (List.mem_mergeSort.mp (List.mem_of_mem_take h))

/-- No two deliveries of a batch are the same. -/
theorem nodup_batch : ((q.batch e).map (·.1.id)).Nodup := by
  have hready : ((q.ready e.now).map (·.1.id)).Nodup := by
    have hids : (q.ready e.now).map (·.1.id) =
        ((q.deliveries.rows.filter (isReady e.now)).filter fun d => (q.endpoints.lookup d.endpointId).isSome).map DeliveryRow.id := by
      rw [Queue.ready,List.map_filterMap]
      induction q.deliveries.rows.filter (isReady e.now) with
      | nil => rfl
      | cons d ds ih =>
        rw [List.filterMap_cons,List.filter_cons]
        cases q.endpoints.lookup d.endpointId with
        | none => exact ih
        | some p => exact congrArg (d.id :: ·) ih
    rw [hids]
    exact q.deliveries.unique.sublist ((List.filter_sublist.trans List.filter_sublist).map _)
  have hperm : ((e.order (q.ready e.now)).mergeSort earlier).Perm (q.ready e.now) :=
    (List.mergeSort_perm _ _).trans (e.order_perm _)
  exact ((hperm.map _).nodup_iff.mpr hready).sublist ((List.take_sublist 50 _).map _)

theorem pairwise_earlier (rows : List (DeliveryRow Json × EndpointRow)) :
    (rows.mergeSort earlier).Pairwise fun r r' => earlier r r' = true := by
  refine List.pairwise_mergeSort (fun r r' r'' h h' => ?_) (fun r r' => ?_) rows
  · simp only [earlier,decide_eq_true_eq] at *
    omega
  · simp only [earlier,Bool.or_eq_true,decide_eq_true_eq]
    omega

end Batch

section Loop
variable {Json : Type} {q : Queue Json} {cm : CaseMapping} {e : TickEnv Json} {r : DeliveryRow Json × EndpointRow}

/-- How a delivery is left by its attempt: delivered, or tried once more and due later or never. -/
def Settled (now : Int) (d d' : DeliveryRow Json) : Prop :=
  d'.deliveredAt.isSome = true ∨
  (d'.attempts = d.attempts + 1 ∧ ∀ t' ∈ d'.nextAttemptAt, now < t' ∧ ∀ t ∈ d.nextAttemptAt, t < t')

theorem now_lt_nextRetry (id : JsString) (attempts : Nat) : e.now < nextRetry (e.finishedAt id) (attempts + 1) * 1000 := by
  have hdelay (k : Nat) : 60 ≤ (BACKOFF[min (k + 1) (BACKOFF.length-1)]?).getD 3600 := by
    match k with
    | 0 | 1 | 2 | 3 => decide
    | k + 4 =>
      rw [show min (k + 4 + 1) (BACKOFF.length-1) = 5 from Nat.min_eq_right (Nat.le_add_left 5 k)]
      decide
  have hclock := e.now_lt id
  have hlong := hdelay attempts
  rw [nextRetry]
  omega

theorem settled_updateDelivery (hready : isReady e.now r.1 = true) (res : Except JsString Nat) :
    Settled e.now r.1 (updateDelivery e r res r.1) := by
  have hdue : ∀ t ∈ r.1.nextAttemptAt, t ≤ e.now := by
    intro t ht
    obtain ⟨-,t',ht',hle⟩ := isReady_iff.mp hready
    rw [Option.mem_def.mp ht] at ht'
    exact Option.some.inj ht' ▸ hle
  unfold updateDelivery
  dsimp only
  split
  · exact .inl rfl
  · refine .inr ⟨rfl,fun t' ht' => ?_⟩
    obtain ⟨next,hnext,rfl⟩ := Option.map_eq_some_iff.mp ht'
    split at hnext
    · cases hnext
    · cases hnext
      have hlater := now_lt_nextRetry (e := e) r.1.id r.1.attempts
      exact ⟨hlater,fun t ht => Int.lt_of_le_of_lt (hdue t ht) hlater⟩

/-- A transaction changes one row. -/
theorem lookup_record (hr : q.deliveries.lookup r.1.id = some r.1) (res : Except JsString Nat) (id : JsString) :
    (q.record e r res).deliveries.lookup id = if id = r.1.id then some (updateDelivery e r res r.1) else q.deliveries.lookup id := by
  rw [Queue.record,Table.lookup_updateWhere]
  by_cases hid : id = r.1.id
  · rw [if_pos hid,hid,hr,Option.map_some,if_pos (beq_self_eq_true _)]
  · rw [if_neg hid]
    cases hd : q.deliveries.lookup id with
    | none => rfl
    | some d =>
      have hne : ¬(d.id == r.1.id) = true := by
        rw [Table.key_of_lookup hd,beq_iff_eq]
        exact hid
      rw [Option.map_some,if_neg hne]

def Opens (e : TickEnv Json) (r : DeliveryRow Json × EndpointRow) : Prop := (e.crypto.openSecret r.2.secretEnc).isSome = true

instance (e : TickEnv Json) (r : DeliveryRow Json × EndpointRow) : Decidable (Opens e r) := inferInstanceAs (Decidable (_ = true))

theorem workOff_cons (cm : CaseMapping)
    (q : Queue Json) (rest : List (DeliveryRow Json × EndpointRow)) (delivered failed : Nat) (h : Opens e r) :
    ∃ res delivered' failed', delivered' + failed' = delivered + failed + 1 ∧
      workOff cm e (r :: rest) q delivered failed = workOff cm e rest (q.record e r res) delivered' failed' := by
  obtain ⟨secret,hsecret⟩ := Option.isSome_iff_exists.mp h
  rw [workOff,hsecret]
  dsimp only
  split
  · exact ⟨_,_,_,by omega,rfl⟩
  · exact ⟨_,_,_,by omega,rfl⟩

theorem workOff_stuck (rest : List (DeliveryRow Json × EndpointRow)) (delivered failed : Nat) (h : ¬Opens e r) :
    workOff cm e (r :: rest) q delivered failed = (q,none) := by
  rw [workOff,Option.not_isSome_iff_eq_none.mp h]

/-- Rows that the loop has not come to. -/
def Untouched (q : Queue Json) (rs : List (DeliveryRow Json × EndpointRow)) : Prop :=
  ∀ r ∈ rs, q.deliveries.lookup r.1.id = some r.1

theorem untouched_record {rest : List (DeliveryRow Json × EndpointRow)} (hq : Untouched q (r :: rest))
    (hids : ((r :: rest).map (·.1.id)).Nodup) (res : Except JsString Nat) : Untouched (q.record e r res) rest := by
  intro r' hr'
  rw [lookup_record (hq r List.mem_cons_self),if_neg,hq r' (List.mem_cons_of_mem _ hr')]
  intro heq
  rw [List.map_cons,List.nodup_cons] at hids
  exact hids.1 (heq ▸ List.mem_map_of_mem hr')

/-- The loop leaves the rows of other deliveries. -/
theorem lookup_workOff {rs : List (DeliveryRow Json × EndpointRow)} (delivered failed : Nat) {id : JsString} (hq : Untouched q rs)
    (hids : (rs.map (·.1.id)).Nodup) (hid : ∀ r ∈ rs, r.1.id ≠ id) :
    (workOff cm e rs q delivered failed).1.deliveries.lookup id = q.deliveries.lookup id := by
  induction rs generalizing q delivered failed with
  | nil => rfl
  | cons r rest ih =>
    by_cases h : Opens e r
    · obtain ⟨res,d',f',-,hstep⟩ := workOff_cons cm q rest delivered failed h
      rw [hstep,ih d' f' (untouched_record hq hids res) (List.nodup_cons.mp hids).2 fun r' hr' => hid r' (List.mem_cons_of_mem _ hr')]
      rw [lookup_record (hq r List.mem_cons_self),if_neg (Ne.symm (hid r List.mem_cons_self))]
    · rw [workOff_stuck rest delivered failed h]

/-- A delivery is settled where its secret and those of all before it open, and else it stays as it was. -/
theorem workOff_settles (cm : CaseMapping) {rs : List (DeliveryRow Json × EndpointRow)} (delivered failed : Nat) (hq : Untouched q rs)
    (hids : (rs.map (·.1.id)).Nodup) (hready : ∀ r ∈ rs, isReady e.now r.1 = true) {before after : List (DeliveryRow Json × EndpointRow)}
    (hrs : rs = before ++ r :: after) :
    ∃ d', (workOff cm e rs q delivered failed).1.deliveries.lookup r.1.id = some d' ∧
      ((∀ r' ∈ before, Opens e r') ∧ Opens e r → Settled e.now r.1 d') ∧ (¬((∀ r' ∈ before, Opens e r') ∧ Opens e r) → d' = r.1) := by
  induction before generalizing rs q delivered failed with
  | nil =>
    obtain rfl := hrs
    by_cases h : Opens e r
    · obtain ⟨res,d',f',-,hstep⟩ := workOff_cons cm q after delivered failed h
      have hids' := hids
      rw [List.nil_append,List.map_cons,List.nodup_cons] at hids'
      refine ⟨updateDelivery e r res r.1,?_,fun _ => settled_updateDelivery (hready r List.mem_cons_self) res,
        fun hno => absurd ⟨fun _ h => absurd h List.not_mem_nil,h⟩ hno⟩
      rw [List.nil_append,hstep,lookup_workOff d' f' (untouched_record hq hids res) hids'.2,
        lookup_record (hq r List.mem_cons_self),if_pos rfl]
      exact fun r' hr' heq => hids'.1 (heq ▸ List.mem_map_of_mem hr')
    · rw [List.nil_append,workOff_stuck after delivered failed h]
      exact ⟨r.1,hq r List.mem_cons_self,fun hall => absurd hall.2 h,fun _ => rfl⟩
  | cons b before ih =>
    obtain rfl := hrs
    by_cases h : Opens e b
    · obtain ⟨res,d',f',-,hstep⟩ := workOff_cons cm q (before ++ r :: after) delivered failed h
      have hids' := hids
      rw [List.cons_append,List.map_cons,List.nodup_cons] at hids'
      rw [List.cons_append,hstep,List.forall_mem_cons]
      simp only [h,true_and]
      exact ih d' f' (untouched_record hq hids res) hids'.2 (fun r' hr' => hready r' (List.mem_cons_of_mem _ hr')) rfl
    · rw [List.cons_append,workOff_stuck _ delivered failed h]
      refine ⟨r.1,hq r ?_,fun hall => absurd (hall.1 b List.mem_cons_self) h,fun _ => rfl⟩
      exact List.mem_append_right (b :: before) List.mem_cons_self

theorem tick_settles_iff (cm : CaseMapping) (q : Queue Json) (e : TickEnv Json) :
    (∀ r ∈ q.batch e, ∃ d', (q.tick cm e).1.deliveries.lookup r.1.id = some d' ∧ Settled e.now r.1 d') ↔
      ∀ r ∈ q.batch e, Opens e r := by
  have hready (r : DeliveryRow Json × EndpointRow) (hr : r ∈ q.batch e) : isReady e.now r.1 = true :=
    (mem_ready.mp (ready_of_mem_batch hr)).2.1
  have huntouched : Untouched q (q.batch e) := fun r hr => Table.lookup_of_mem (mem_ready.mp (ready_of_mem_batch hr)).1
  constructor
  · intro h r hr
    by_contra hno
    obtain ⟨before,after,hsplit⟩ := List.append_of_mem hr
    obtain ⟨d,hd,-,hsame⟩ := workOff_settles cm 0 0 huntouched nodup_batch hready hsplit
    obtain ⟨d',hd',hsettled⟩ := h r hr
    rw [Queue.tick,hd] at hd'
    cases hd'
    rw [hsame fun hall => hno hall.2] at hsettled
    rcases hsettled with hdelivered | ⟨hattempts,-⟩
    · rw [(isReady_iff.mp (hready r hr)).1] at hdelivered
      cases hdelivered
    · omega
  · intro h r hr
    obtain ⟨before,after,hsplit⟩ := List.append_of_mem hr
    obtain ⟨d,hd,hsettled,-⟩ := workOff_settles cm 0 0 huntouched nodup_batch hready hsplit
    refine ⟨d,hd,hsettled ⟨fun r' hr' => h r' ?_,h r hr⟩⟩
    rw [hsplit]
    exact List.mem_append_left _ hr'

/-- A delivery whose secret does not open, and that is due before every other one. -/
structure Poisons (q : Queue Json) (r : DeliveryRow Json × EndpointRow) (since : Int) : Prop where
  mem : r.1 ∈ q.deliveries.rows
  endpoint : q.endpoints.lookup r.1.endpointId = some r.2
  undelivered : r.1.deliveredAt = none
  due : r.1.nextAttemptAt = some since
  first : ∀ d ∈ q.deliveries.rows, d ≠ r.1 → ∀ t ∈ d.nextAttemptAt, since < t

/-- Such a delivery is the first of its batches. -/
theorem batch_of_poisons {since : Int} (h : Poisons q r since) (e : TickEnv Json) : q.batch e = [] ∨ ∃ rest, q.batch e = r :: rest := by
  have hlast {r' : DeliveryRow Json × EndpointRow} (hr' : r' ∈ q.ready e.now) : r' = r ∨ since < r'.1.nextAttemptAt.getD 0 := by
    obtain ⟨hmem,hready,hendpoint⟩ := mem_ready.mp hr'
    obtain ⟨-,t,ht,-⟩ := isReady_iff.mp hready
    by_cases hsame : r'.1 = r.1
    · refine .inl (Prod.ext hsame ?_)
      rw [hsame,h.endpoint] at hendpoint
      exact (Option.some.inj hendpoint).symm
    · refine .inr ?_
      rw [ht]
      exact h.first r'.1 hmem hsame t ht
  have hmem {r' : DeliveryRow Json × EndpointRow} :
      r' ∈ (e.order (q.ready e.now)).mergeSort earlier ↔ r' ∈ q.ready e.now :=
    List.mem_mergeSort.trans (e.order_perm _).mem_iff
  have hsorted := pairwise_earlier (e.order (q.ready e.now))
  rw [Queue.batch]
  cases hrows : (e.order (q.ready e.now)).mergeSort earlier with
  | nil => exact .inl rfl
  | cons x rest =>
    rw [hrows] at hmem hsorted
    have hx := hmem.mp List.mem_cons_self
    rcases hlast hx with rfl | hlater
    · exact .inr ⟨_,rfl⟩
    · -- then the delivery itself is due, and stands behind one that is due later
      obtain ⟨-,hready,-⟩ := mem_ready.mp hx
      obtain ⟨-,t,ht,hdue⟩ := isReady_iff.mp hready
      rw [ht,Option.getD_some] at hlater
      have hself : r ∈ q.ready e.now := by
        have hown : isReady e.now r.1 = true := isReady_iff.mpr ⟨h.undelivered,since,h.due,by omega⟩
        exact mem_ready.mpr ⟨h.mem,hown,h.endpoint⟩
      rcases List.mem_cons.mp (hmem.mpr hself) with rfl | hrest
      · exact .inr ⟨_,rfl⟩
      · have hearlier := (List.pairwise_cons.mp hsorted).1 r hrest
        rw [earlier,ht,h.due,decide_eq_true_eq,Option.getD_some,Option.getD_some] at hearlier
        omega

/-- However many ticks follow, no delivery of any tenant is attempted. -/
theorem stuck_forever {since : Int} (h : Poisons q r since) {es : List (TickEnv Json)} (hopen : ∀ e ∈ es, ¬Opens e r) :
    es.foldl (fun q e => (q.tick cm e).1) q = q := by
  induction es with
  | nil => rfl
  | cons e es ih =>
    have hstuck : (q.tick cm e).1 = q := by
      rw [Queue.tick]
      rcases batch_of_poisons h e with hnone | ⟨rest,hfirst⟩
      · rw [hnone]
        rfl
      · rw [hfirst,workOff_stuck rest 0 0 (hopen e List.mem_cons_self)]
    rw [List.foldl_cons,hstuck]
    exact ih fun e' he' => hopen e' (List.mem_cons_of_mem _ he')

/-- The endpoint of one tenant has a secret that is not a sealed text, that of the other answers 200. -/
def endpointOf (id orgId secretEnc : JsString) : EndpointRow := ⟨id,orgId,js "https://93.184.215.14/",secretEnc,none,none,0⟩

def deliveryOf (id endpointId : JsString) (due : Int) : DeliveryRow Unit := ⟨id,endpointId,js "message.sent",(),none,0,some due,none,none⟩

def starvedQueue : Queue Unit where
  endpoints := ⟨[endpointOf (js "a") (js "one") (js "whsec"),endpointOf (js "b") (js "two") (js "aXY.Y3Q.dGFn")],by decide⟩
  deliveries := ⟨[deliveryOf (js "1") (js "a") 1,deliveryOf (js "2") (js "b") 2],by decide⟩

def answeringEnv : TickEnv Unit where
  now := 3
  order rows := rows
  crypto := ⟨bufferFromBase64,fun _ _ _ => some (js "whsec_key"),fun _ body => body⟩
  bodyStr d := d.event
  urls _ := ⟨fun _ => some ⟨js "https:",.ipv4 ⟨93,184,215,14⟩⟩,fun _ => none⟩
  fetch _ _ := .ok 200
  finishedAt _ := 1
  committedAt _ := 1000
  order_perm _ := List.Perm.refl _
  now_lt _ := by decide

/-- The delivery of the other tenant stays due, however often the tick comes. -/
theorem other_tenant_starved :
    (starvedQueue.ready answeringEnv.now).map (fun r => (r.2.orgId,r.1.id)) = [(js "one",js "1"),(js "two",js "2")] ∧
    (starvedQueue.tick asciiCase answeringEnv).2 = none ∧
    (∀ n, (List.replicate n answeringEnv).foldl (fun q e => (q.tick asciiCase e).1) starvedQueue = starvedQueue) ∧
    ¬∀ r ∈ starvedQueue.batch answeringEnv,
      ∃ d', (starvedQueue.tick asciiCase answeringEnv).1.deliveries.lookup r.1.id = some d' ∧ Settled answeringEnv.now r.1 d' := by
  have hsorted : (starvedQueue.ready answeringEnv.now).mergeSort earlier = starvedQueue.ready answeringEnv.now :=
    List.mergeSort_of_pairwise (by decide)
  have hbatch : starvedQueue.batch answeringEnv = starvedQueue.ready answeringEnv.now := congrArg (List.take 50) hsorted
  have hready : starvedQueue.ready answeringEnv.now =
      [(deliveryOf (js "1") (js "a") 1,endpointOf (js "a") (js "one") (js "whsec")),
       (deliveryOf (js "2") (js "b") 2,endpointOf (js "b") (js "two") (js "aXY.Y3Q.dGFn"))] := by decide
  have hclosed : ¬Opens answeringEnv (deliveryOf (js "1") (js "a") 1,endpointOf (js "a") (js "one") (js "whsec")) := by decide
  have htick : starvedQueue.tick asciiCase answeringEnv = (starvedQueue,none) := by
    rw [Queue.tick,hbatch,hready,workOff_stuck _ 0 0 hclosed]
  refine ⟨by rw [hready]; rfl,congrArg Prod.snd htick,fun n => ?_,fun h => ?_⟩
  · have hpoisons : Poisons starvedQueue (deliveryOf (js "1") (js "a") 1,endpointOf (js "a") (js "one") (js "whsec")) 1 :=
      ⟨List.mem_cons_self,rfl,rfl,rfl,List.forall_mem_cons.mpr ⟨fun hne => absurd rfl hne,by decide⟩⟩
    exact stuck_forever hpoisons fun e he => (List.eq_of_mem_replicate he) ▸ hclosed
  · obtain ⟨d',hd',hsettled⟩ := h _ (by rw [hbatch,hready]; exact List.mem_cons_self)
    rw [htick] at hd'
    obtain rfl := Option.some.inj (hd'.symm.trans rfl)
    rcases hsettled with hdelivered | ⟨hattempts,-⟩
    · cases hdelivered
    · cases hattempts

end Loop
end JustMail.Webhooks
