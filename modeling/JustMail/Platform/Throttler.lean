import JustMail.Foundation.CodeUnits
import JustMail.Foundation.KeyedTable
import JustMail.Foundation.Keyspace

/-! The rate limiter of `throttler.guard.ts`: a counter for each client and bucket in Redis, or in a map
of the process where there is no Redis or a command fails. Times are in milliseconds. -/
namespace JustMail.Platform
open Foundation

structure ThrottleOptions where
  limit : Nat
  ttl : Nat

structure RateConfig where
  RATE_LIMIT_GLOBAL_MAX : Nat
  RATE_LIMIT_GLOBAL_TTL : Nat

/-- What the reflector says of the handler that a request goes to. -/
structure Route where
  http : Bool
  skip : Bool
  override : Option ThrottleOptions
  className : JsString
  handlerName : JsString

/-- The bucket that a route counts in, with its limit and its window in seconds. -/
structure RouteLimit where
  bucketId : JsString
  limit : Nat
  ttl : Nat
  deriving DecidableEq

/-- `none` where the route is exempt. -/
def Route.rateLimit (cfg : RateConfig) (route : Route) : Option RouteLimit :=
  if !route.http || route.skip then none
  else match route.override with
    | some options => some ⟨route.className ++ unit '.' :: route.handlerName,options.limit,options.ttl⟩
    | none => some ⟨js "global",cfg.RATE_LIMIT_GLOBAL_MAX,cfg.RATE_LIMIT_GLOBAL_TTL⟩

/-- `throttle:${bucketId}:${ip}`. -/
def throttleKey (bucketId ip : JsString) : JsString := js "throttle:" ++ bucketId ++ unit ':' :: ip

/-- A request, with the instants of its two Redis commands and of the count in the process, and whether each
of the commands succeeds. -/
structure ThrottledRequest where
  route : Route
  ip : Option JsString
  remoteAddress : Option JsString
  incrAt : Nat
  incrOk : Bool
  secondAt : Nat
  secondOk : Bool
  memoryAt : Nat

/-- `req.ip || req.socket?.remoteAddress || "unknown"`. -/
def ThrottledRequest.address (r : ThrottledRequest) : JsString :=
  ((r.ip.filter fun s => !s.isEmpty).or (r.remoteAddress.filter fun s => !s.isEmpty)).getD (js "unknown")

def ThrottledRequest.key (cfg : RateConfig) (r : ThrottledRequest) : Option JsString :=
  (r.route.rateLimit cfg).map fun t => throttleKey t.bucketId r.address

/-- A request that counts under the key does so with the limit `t`. -/
def SharesLimit (cfg : RateConfig) (t : RouteLimit) (key : JsString) (r : ThrottledRequest) : Prop :=
  r.key cfg = some key → r.route.rateLimit cfg = some t

structure Bucket where
  key : JsString
  count : Nat
  resetAt : Nat

/-- `memory`. -/
abbrev BucketMap := Table Bucket.key

structure Hit where
  count : Nat
  ttlRemaining : Nat
  deriving DecidableEq

def sweep (memory : BucketMap) (now : Nat) : BucketMap := memory.deleteWhere fun b => b.resetAt ≤ now

def countUp (b : Bucket) : Bucket := { b with count := b.count+1 }

theorem countUp_key (b : Bucket) : (countUp b).key = b.key := rfl

def hitMemory (memory : BucketMap) (key : JsString) (ttl now : Nat) : BucketMap × Hit :=
  match (memory.lookup key).filter fun b => now < b.resetAt with
  | none =>
    let memory := memory.upsert ⟨key,1,now + ttl*1000⟩
    (if memory.rows.length > 50000 then sweep memory now else memory,⟨1,ttl⟩)
  | some existing =>
    (memory.updateWhere (·.key == key) countUp countUp_key,⟨existing.count+1,max 1 ((existing.resetAt - now + 999) / 1000)⟩)

/-- `TTL key`, which rounds to seconds: -2 where the key is not there, -1 where it does not expire. -/
def ttlOf (ks : Keyspace JsString Nat) (now : Nat) (key : JsString) : Int :=
  match ks.find now key with
  | none => -2
  | some ⟨_,none⟩ => -1
  | some ⟨_,some expiresAt⟩ => ((expiresAt - now + 500) / 1000 : Nat)

/-- The commands of `hit`. No hit where one of them fails. -/
def hitRedis (ks : Keyspace JsString Nat) (key : JsString) (ttl : Nat) (r : ThrottledRequest) : Keyspace JsString Nat × Option Hit :=
  if !r.incrOk then (ks,none)
  else
    let (ks,count) := ks.incr r.incrAt key
    if count = 1 then
      if r.secondOk then (ks.expire r.secondAt key (ttl*1000),some ⟨count,ttl⟩) else (ks,none)
    else if r.secondOk then
      let remaining := ttlOf ks r.secondAt key
      (ks,some ⟨count,if remaining > 0 then remaining.toNat else ttl⟩)
    else (ks,none)

/-- `redis` is the database that the client is connected to, if there is a client. -/
structure Throttler where
  redis : Option (Keyspace JsString Nat)
  memory : BucketMap

def Throttler.hit (s : Throttler) (key : JsString) (ttl : Nat) (r : ThrottledRequest) : Throttler × Hit :=
  match s.redis with
  | none =>
    let (memory,hit) := hitMemory s.memory key ttl r.memoryAt
    (⟨none,memory⟩,hit)
  | some ks => match hitRedis ks key ttl r with
    | (ks,some hit) => (⟨some ks,s.memory⟩,hit)
    | (ks,none) =>
      let (memory,hit) := hitMemory s.memory key ttl r.memoryAt
      (⟨some ks,memory⟩,hit)

/-- The headers of the response. A request is refused with a `Retry-After`. -/
structure Verdict where
  limit : Nat
  remaining : Nat
  retryAfter : Option Nat
  deriving DecidableEq

def Verdict.allowed (v : Verdict) : Bool := v.retryAfter.isNone

def verdictOf (limit : Nat) (hit : Hit) : Verdict := ⟨limit,limit - hit.count,if hit.count > limit then some hit.ttlRemaining else none⟩

theorem verdictOf_allowed (limit : Nat) (hit : Hit) : (verdictOf limit hit).allowed = decide (hit.count ≤ limit) := by
  rw [Verdict.allowed,verdictOf]
  by_cases h : hit.count > limit
  · simp [h]
  · simpa [h] using Nat.le_of_not_lt h

/-- No verdict where the route is exempt. -/
def canActivate (cfg : RateConfig) (s : Throttler) (r : ThrottledRequest) : Throttler × Option Verdict :=
  match r.route.rateLimit cfg with
  | none => (s,none)
  | some t =>
    let (s,hit) := s.hit (throttleKey t.bucketId r.address) t.ttl r
    (s,some (verdictOf t.limit hit))

section Counting
variable {memory : BucketMap} {key k : JsString} {ttl now : Nat} {b : Bucket}

theorem hitMemory_first (h : ∀ b, memory.lookup key = some b → b.resetAt ≤ now) : (hitMemory memory key ttl now).2.count = 1 := by
  have hnone : (memory.lookup key).filter (fun b => decide (now < b.resetAt)) = none := by
    rw [Option.filter_eq_none_iff]
    intro b hb
    simpa using h b hb
  rw [hitMemory,hnone]

/-- A bucket lasts until the end that it has, or that of a window from now on. -/
theorem hitMemory_resetAt (h : (hitMemory memory key ttl now).1.lookup key = some b) :
    b.resetAt = now + ttl*1000 ∨ ∃ b₀, memory.lookup key = some b₀ ∧ b.resetAt = b₀.resetAt := by
  rw [hitMemory] at h
  split at h
  · left
    dsimp only at h
    split at h
    · rw [sweep,Table.lookup_deleteWhere,Table.lookup_upsert,if_pos rfl] at h
      rw [← Option.some.inj (Option.filter_eq_some_iff.mp h).1]
    · rw [Table.lookup_upsert,if_pos rfl] at h
      rw [← Option.some.inj h]
  · right
    dsimp only at h
    rw [Table.lookup_updateWhere] at h
    obtain ⟨b₀,hb₀,rfl⟩ := Option.map_eq_some_iff.mp h
    refine ⟨b₀,hb₀,?_⟩
    split <;> rfl

/-- A bucket that is not there, or is over, is set up again. -/
theorem hitMemory_fresh (hpos : 0 < ttl) (h : ∀ b, memory.lookup key = some b → b.resetAt ≤ now) :
    (hitMemory memory key ttl now).1.lookup key = some ⟨key,1,now + ttl*1000⟩ ∧ (hitMemory memory key ttl now).2 = ⟨1,ttl⟩ := by
  have hnone : (memory.lookup key).filter (fun b => decide (now < b.resetAt)) = none := by
    rw [Option.filter_eq_none_iff]
    intro b hb
    simpa using h b hb
  rw [hitMemory,hnone]
  refine ⟨?_,rfl⟩
  dsimp only
  split
  · rw [sweep,Table.lookup_deleteWhere,Table.lookup_upsert,if_pos rfl,Option.filter_some,if_pos]
    have hlater : now < now + ttl*1000 := by omega
    simpa only [Bool.not_eq_true',decide_eq_false_iff_not,Nat.not_le] using hlater
  · rw [Table.lookup_upsert,if_pos rfl]

/-- One that is under way counts up. -/
theorem hitMemory_counted (h : memory.lookup key = some b) (halive : now < b.resetAt) :
    (hitMemory memory key ttl now).1.lookup key = some (countUp b) ∧ (hitMemory memory key ttl now).2.count = b.count+1 := by
  have hsome : (memory.lookup key).filter (fun b => decide (now < b.resetAt)) = some b := by
    rw [h,Option.filter_some,if_pos (by simpa using halive)]
  rw [hitMemory,hsome]
  refine ⟨?_,rfl⟩
  dsimp only
  rw [Table.lookup_updateWhere,h,Option.map_some,if_pos (by simpa using Table.key_of_lookup h)]

/-- The other buckets are left alone, unless they are over and swept. -/
theorem hitMemory_other (memory : BucketMap) (ttl now : Nat) (hne : k ≠ key) :
    (hitMemory memory key ttl now).1.lookup k = memory.lookup k ∨
      ((hitMemory memory key ttl now).1.lookup k = none ∧ ∀ b, memory.lookup k = some b → b.resetAt ≤ now) := by
  rw [hitMemory]
  split
  · dsimp only
    split
    · rw [sweep,Table.lookup_deleteWhere,Table.lookup_upsert,if_neg hne]
      cases hk : memory.lookup k with
      | none => exact .inl rfl
      | some b =>
        rw [Option.filter_some]
        split
        · exact .inl rfl
        · rename_i hover
          exact .inr ⟨rfl,fun b' hb' => by cases hb'; simpa using hover⟩
    · rw [Table.lookup_upsert,if_neg hne]
      exact .inl rfl
  · left
    dsimp only
    rw [Table.lookup_updateWhere]
    cases hk : memory.lookup k with
    | none => rfl
    | some b =>
      have hbk : b.key ≠ key := fun he => hne ((Table.key_of_lookup hk).symm.trans he)
      rw [Option.map_some,if_neg (by simpa using hbk)]

end Counting
end JustMail.Platform
