import JustMail.Foundation.FixedWindow
import JustMail.Platform.Throttler

/-! How many requests of a client the throttler allows in any stretch of time, when it counts in
the process. -/
namespace JustMail.Platform
open Foundation

section Model
variable (cfg : RateConfig)

/-- A request that has been served, with the end of the bucket that it was counted in. -/
structure Served where
  key : Option JsString
  time : Nat
  allowed : Bool
  resetAt : Nat
  deriving DecidableEq

/-- The next request, and what is to be remembered of it. -/
def serve (s : Throttler × List Served) (r : ThrottledRequest) : Throttler × List Served :=
  let (throttler,verdict) := canActivate cfg s.1 r
  (throttler,s.2 ++ [⟨r.key cfg,r.memoryAt,verdict.any (·.allowed),((r.key cfg).bind throttler.memory.lookup).elim 0 (·.resetAt)⟩])

/-- Requests are served one after the other, by a process that has no Redis. -/
def serveAll (requests : List ThrottledRequest) : Throttler × List Served := requests.foldl (serve cfg) (⟨none,.empty⟩,[])

def allowedOf (key : JsString) (log : List Served) : List Served := log.filter fun e => e.key = some key ∧ e.allowed

end Model

/-- What holds of the requests of a key and of its bucket. -/
structure KeyWindows (t : RouteLimit) (key : JsString) (memory : BucketMap) (log : List Served) (now : Nat) : Prop where
  windowed : Windowed (t.ttl*1000) t.limit Served.time Served.resetAt (allowedOf key log)
  opened : ∀ b, memory.lookup key = some b → ∃ e ∈ allowedOf key log, e.resetAt = b.resetAt
  latest : ∀ b, memory.lookup key = some b → b.resetAt ≤ now + t.ttl*1000 ∧
    ∀ e ∈ allowedOf key log, e.resetAt = b.resetAt ∨ e.resetAt + t.ttl*1000 ≤ b.resetAt
  counted : ∀ b, memory.lookup key = some b → ((allowedOf key log).filter fun e => e.resetAt = b.resetAt).length ≤ b.count
  alive : ∀ e ∈ allowedOf key log, now < e.resetAt → ∃ b, memory.lookup key = some b ∧ b.resetAt = e.resetAt

section Steps
variable {cfg : RateConfig} {t : RouteLimit} {key : JsString} {memory memory' : BucketMap}
  {log : List Served} {e : Served} {now later : Nat}

theorem allowedOf_snoc (key : JsString) (log : List Served) (e : Served) :
    allowedOf key (log ++ [e]) = if e.key = some key ∧ e.allowed = true then allowedOf key log ++ [e] else allowedOf key log := by
  rw [allowedOf,List.filter_append]
  by_cases h : e.key = some key ∧ e.allowed = true
  · rw [if_pos h,List.filter_cons_of_pos (by simpa using h)]
    rfl
  · rw [if_neg h,List.filter_cons_of_neg (by simpa using h)]
    exact List.append_nil _

theorem KeyWindows.initial (t : RouteLimit) (key : JsString) (now : Nat) : KeyWindows t key .empty [] now where
  windowed := ⟨fun _ h => absurd h List.not_mem_nil,fun _ h => absurd h List.not_mem_nil,fun _ => Nat.zero_le _⟩
  opened _ h := absurd h nofun
  latest _ h := absurd h nofun
  counted _ h := absurd h nofun
  alive _ h := absurd h List.not_mem_nil

/-- Time passes. -/
theorem KeyWindows.mono (h : KeyWindows t key memory log now) (hle : now ≤ later) : KeyWindows t key memory log later where
  windowed := h.windowed
  opened := h.opened
  latest b hb := ⟨Nat.le_trans (h.latest b hb).1 (by omega),(h.latest b hb).2⟩
  counted := h.counted
  alive e he halive := h.alive e he (Nat.lt_of_le_of_lt hle halive)

/-- A request of another key. The bucket is left alone, unless it is over and swept. -/
theorem KeyWindows.other (h : KeyWindows t key memory log now) (hkey : e.key ≠ some key)
    (hmemory : memory'.lookup key = memory.lookup key ∨ (memory'.lookup key = none ∧ ∀ b, memory.lookup key = some b → b.resetAt ≤ now)) :
    KeyWindows t key memory' (log ++ [e]) now := by
  have hlog : allowedOf key (log ++ [e]) = allowedOf key log := by rw [allowedOf_snoc,if_neg fun he => hkey he.1]
  rcases hmemory with hsame | ⟨hnone,hover⟩
  · refine ⟨?_,?_,?_,?_,?_⟩ <;> rw [hlog]
    · exact h.windowed
    · rw [hsame]
      exact h.opened
    · rw [hsame]
      exact h.latest
    · rw [hsame]
      exact h.counted
    · rw [hsame]
      exact h.alive
  · refine ⟨?_,?_,?_,?_,?_⟩ <;> rw [hlog]
    · exact h.windowed
    · rw [hnone]
      exact nofun
    · rw [hnone]
      exact nofun
    · rw [hnone]
      exact nofun
    · intro e' he' halive
      obtain ⟨b,hb,hreset⟩ := h.alive e' he' halive
      have hpast := hover b hb
      omega

theorem KeyWindows.of_bucket {b : Bucket} (hb : memory.lookup key = some b)
    (hwindowed : Windowed (t.ttl*1000) t.limit Served.time Served.resetAt (allowedOf key log))
    (hopened : ∃ e ∈ allowedOf key log, e.resetAt = b.resetAt) (hle : b.resetAt ≤ now + t.ttl*1000)
    (hlatest : ∀ e ∈ allowedOf key log, e.resetAt = b.resetAt ∨ e.resetAt + t.ttl*1000 ≤ b.resetAt)
    (hcounted : ((allowedOf key log).filter fun e => e.resetAt = b.resetAt).length ≤ b.count)
    (halive : ∀ e ∈ allowedOf key log, now < e.resetAt → b.resetAt = e.resetAt) : KeyWindows t key memory log now := by
  have hsame : ∀ b', memory.lookup key = some b' → b' = b := fun b' hb' => Option.some.inj (hb'.symm.trans hb)
  refine ⟨hwindowed,fun b' hb' => ?_,fun b' hb' => ?_,fun b' hb' => ?_,fun e he hnow => ⟨b,hb,halive e he hnow⟩⟩
  · obtain rfl := hsame b' hb'
    exact hopened
  · obtain rfl := hsame b' hb'
    exact ⟨hle,hlatest⟩
  · obtain rfl := hsame b' hb'
    exact hcounted

/-- A request that sets up a bucket. -/
theorem KeyWindows.fresh (h : KeyWindows t key memory log now) (hlimit : 0 < t.limit) (httl : 0 < t.ttl)
    (hover : ∀ b, memory.lookup key = some b → b.resetAt ≤ now) (hmemory : memory'.lookup key = some ⟨key,1,now + t.ttl*1000⟩)
    (he : e = ⟨some key,now,true,now + t.ttl*1000⟩) : KeyWindows t key memory' (log ++ [e]) now := by
  have hlog : allowedOf key (log ++ [e]) = allowedOf key log ++ [e] := by rw [allowedOf_snoc,if_pos (by simp [he])]
  have hpast : ∀ e' ∈ allowedOf key log, e'.resetAt ≤ now := by
    intro e' he'
    by_contra hnow
    obtain ⟨b,hb,hreset⟩ := h.alive e' he' (by omega)
    have := hover b hb
    omega
  have hnone : ((allowedOf key log).filter fun e' => e'.resetAt = e.resetAt) = [] := by
    rw [List.filter_eq_nil_iff]
    intro e' he'
    have := hpast e' he'
    simp only [he,decide_eq_true_eq]
    omega
  have hreset : e.resetAt = now + t.ttl*1000 := by rw [he]
  refine .of_bucket hmemory ?_ ?_ (Nat.le_refl _) ?_ ?_ ?_ <;> rw [hlog]
  · refine h.windowed.snoc (by rw [he]; constructor <;> dsimp only <;> omega) (fun e' he' => .inr ?_) (by rw [hnone]; exact hlimit)
    have := hpast e' he'
    omega
  · exact ⟨e,List.mem_append_right _ List.mem_cons_self,hreset⟩
  · intro e' he'
    rcases List.mem_append.mp he' with hold | hlast
    · exact .inr (Nat.add_le_add_right (hpast e' hold) _)
    · rw [List.mem_singleton.mp hlast]
      exact .inl hreset
  · rw [← hreset,List.filter_append,hnone,List.nil_append]
    exact List.length_filter_le _ _
  · intro e' he' halive
    rcases List.mem_append.mp he' with hold | hlast
    · have := hpast e' hold
      omega
    · rw [List.mem_singleton.mp hlast]
      exact hreset.symm

section Counting
variable {b : Bucket}

theorem KeyWindows.same_alive (h : KeyWindows t key memory log now) (hb : memory.lookup key = some b) :
    ∀ e ∈ allowedOf key log, now < e.resetAt → b.resetAt = e.resetAt := by
  intro e he hnow
  obtain ⟨b',hb',hsame⟩ := h.alive e he hnow
  obtain rfl := Option.some.inj (hb'.symm.trans hb)
  exact hsame

/-- A request in a bucket that is under way and has room. -/
theorem KeyWindows.allow (h : KeyWindows t key memory log now) (hb : memory.lookup key = some b) (hnow : now < b.resetAt)
    (hroom : b.count+1 ≤ t.limit) (hmemory : memory'.lookup key = some (countUp b)) (he : e = ⟨some key,now,true,b.resetAt⟩) :
    KeyWindows t key memory' (log ++ [e]) now := by
  have hreset : e.resetAt = b.resetAt := by rw [he]
  have hcounted := h.counted b hb
  obtain ⟨hle,hlatest⟩ := h.latest b hb
  obtain ⟨e₀,he₀,hopened⟩ := h.opened b hb
  have hlog : allowedOf key (log ++ [e]) = allowedOf key log ++ [e] := by rw [allowedOf_snoc,if_pos (by simp [he])]
  refine .of_bucket hmemory ?_ ?_ hle ?_ ?_ ?_ <;> rw [hlog]
  · refine h.windowed.snoc (by rw [he]; exact ⟨hnow,hle⟩) (fun e' he' => ?_) ?_
    · rw [hreset]
      exact hlatest e' he'
    · rw [hreset]
      omega
  · exact ⟨e₀,List.mem_append_left _ he₀,hopened⟩
  · intro e' he'
    rcases List.mem_append.mp he' with hold | hlast
    · exact hlatest e' hold
    · rw [List.mem_singleton.mp hlast]
      exact .inl hreset
  · have hone : ([e].filter fun e' => e'.resetAt = b.resetAt).length ≤ 1 := List.length_filter_le _ _
    rw [List.filter_append,List.length_append]
    exact Nat.add_le_add hcounted hone
  · intro e' he' halive
    rcases List.mem_append.mp he' with hold | hlast
    · exact h.same_alive hb e' hold halive
    · rw [List.mem_singleton.mp hlast]
      exact hreset.symm

theorem KeyWindows.refuse (h : KeyWindows t key memory log now) (hb : memory.lookup key = some b)
    (hmemory : memory'.lookup key = some (countUp b)) (he : e = ⟨some key,now,false,b.resetAt⟩) :
    KeyWindows t key memory' (log ++ [e]) now := by
  obtain ⟨hle,hlatest⟩ := h.latest b hb
  have halive := h.same_alive hb
  have hlog : allowedOf key (log ++ [e]) = allowedOf key log := by rw [allowedOf_snoc,if_neg (by simp [he])]
  refine .of_bucket hmemory ?_ ?_ hle ?_ ?_ ?_ <;> rw [hlog]
  · exact h.windowed
  · exact h.opened b hb
  · exact hlatest
  · exact Nat.le_succ_of_le (h.counted b hb)
  · exact halive

theorem KeyWindows.count (h : KeyWindows t key memory log now) (hb : memory.lookup key = some b) (hnow : now < b.resetAt)
    (hmemory : memory'.lookup key = some (countUp b)) (he : e = ⟨some key,now,decide (b.count+1 ≤ t.limit),b.resetAt⟩) :
    KeyWindows t key memory' (log ++ [e]) now := by
  by_cases hroom : b.count+1 ≤ t.limit
  · exact h.allow hb hnow hroom hmemory (by rw [he,decide_eq_true hroom])
  · exact h.refuse hb hmemory (by rw [he,decide_eq_false hroom])

end Counting

theorem keyWindows_serve {s : Throttler × List Served} {r : ThrottledRequest} (h : KeyWindows t key s.1.memory s.2 r.memoryAt)
    (hredis : s.1.redis = none) (hlimit : 0 < t.limit) (httl : 0 < t.ttl) (hroute : SharesLimit cfg t key r) :
    (serve cfg s r).1.redis = none ∧ KeyWindows t key (serve cfg s r).1.memory (serve cfg s r).2 r.memoryAt := by
  obtain ⟨⟨redis,memory⟩,log⟩ := s
  obtain rfl : redis = none := hredis
  cases hlimited : r.route.rateLimit cfg with
  | none =>
    have hkey : r.key cfg = none := by rw [ThrottledRequest.key,hlimited,Option.map_none]
    simp only [serve,canActivate,hlimited]
    refine ⟨trivial,h.other (by simp [hkey]) (.inl rfl)⟩
  | some t' =>
    have hkey : r.key cfg = some (throttleKey t'.bucketId r.address) := by rw [ThrottledRequest.key,hlimited,Option.map_some]
    simp only [serve,canActivate,hlimited,Throttler.hit]
    refine ⟨trivial,?_⟩
    by_cases hsame : throttleKey t'.bucketId r.address = key
    · obtain rfl : t' = t := Option.some.inj (hlimited.symm.trans (hroute (by rw [hkey,hsame])))
      rw [hkey,Option.bind_some,hsame]
      by_cases hfresh : ∀ b, memory.lookup key = some b → b.resetAt ≤ r.memoryAt
      · obtain ⟨hlookup,hhit⟩ := hitMemory_fresh httl hfresh
        refine h.fresh hlimit httl hfresh hlookup ?_
        rw [hlookup,Option.any_some,verdictOf_allowed,hhit,decide_eq_true (show 1 ≤ t'.limit from hlimit)]
        rfl
      · obtain ⟨b,hb,hnow⟩ : ∃ b, memory.lookup key = some b ∧ r.memoryAt < b.resetAt := by simpa using hfresh
        obtain ⟨hlookup,hhit⟩ := hitMemory_counted hb hnow
        refine h.count hb hnow hlookup ?_
        rw [hlookup,Option.any_some,verdictOf_allowed,hhit]
        rfl
    · exact h.other (by simpa [hkey] using hsame) (hitMemory_other memory t'.ttl r.memoryAt (Ne.symm hsame))

theorem serveAll_append (cfg : RateConfig) (requests later : List ThrottledRequest) :
    serveAll cfg (requests ++ later) = later.foldl (serve cfg) (serveAll cfg requests) := List.foldl_append

/-- The log grows at its end. -/
theorem log_extends (cfg : RateConfig) (s : Throttler × List Served) (requests : List ThrottledRequest) :
    s.2 <+: (requests.foldl (serve cfg) s).2 := by
  induction requests generalizing s with
  | nil => exact List.prefix_refl _
  | cons r requests ih => exact (List.prefix_append s.2 _).trans (ih (serve cfg s r))

theorem keyWindows_serveAll (hlimit : 0 < t.limit) (httl : 0 < t.ttl) {requests : List ThrottledRequest} {now : Nat}
    (hclock : (requests.map (·.memoryAt)).Pairwise (· ≤ ·)) (hnow : ∀ r ∈ requests, r.memoryAt ≤ now)
    (hroutes : ∀ r ∈ requests, SharesLimit cfg t key r) :
    (serveAll cfg requests).1.redis = none ∧ KeyWindows t key (serveAll cfg requests).1.memory (serveAll cfg requests).2 now := by
  induction requests using List.reverseRecOn generalizing now with
  | nil => exact ⟨rfl,.initial t key now⟩
  | append_singleton requests r ih =>
    rw [List.map_append,List.pairwise_append] at hclock
    obtain ⟨hbefore,-,hlast⟩ := hclock
    obtain ⟨hredis,h⟩ := ih hbefore (fun r' hr' => hlast r'.memoryAt (List.mem_map_of_mem hr') r.memoryAt List.mem_cons_self)
      fun r' hr' => hroutes r' (List.mem_append_left _ hr')
    have hstep := keyWindows_serve h hredis hlimit httl (hroutes r (List.mem_append_right _ List.mem_cons_self))
    rw [serveAll_append]
    exact ⟨hstep.1,hstep.2.mono (hnow r (List.mem_append_right _ List.mem_cons_self))⟩

theorem exists_end (requests : List ThrottledRequest) : ∃ now, ∀ r ∈ requests, r.memoryAt ≤ now := by
  induction requests with
  | nil => exact ⟨0,fun _ hr => absurd hr List.not_mem_nil⟩
  | cons r requests ih =>
    obtain ⟨now,hnow⟩ := ih
    refine ⟨max r.memoryAt now,fun r' hr' => ?_⟩
    rcases List.mem_cons.mp hr' with rfl | hrest
    · exact Nat.le_max_left _ _
    · exact Nat.le_trans (hnow r' hrest) (Nat.le_max_right _ _)

/-- Of the requests of one client, whose routes share a bucket and so a limit, twice the limit is allowed in a
window's time at most, and the limit in the lifetime of a bucket. -/
theorem fixed_window_bound (cfg : RateConfig) (t : RouteLimit) (key : JsString) (requests : List ThrottledRequest)
    (hlimit : 0 < t.limit) (httl : 0 < t.ttl) (hclock : (requests.map (·.memoryAt)).Pairwise (· ≤ ·))
    (hroutes : ∀ r ∈ requests, SharesLimit cfg t key r) :
    (∀ a b, b ≤ a + t.ttl*1000 →
      ((allowedOf key (serveAll cfg requests).2).filter fun e => a ≤ e.time ∧ e.time ≤ b).length ≤ 2*t.limit) ∧
    ∀ before later, requests = before ++ later → ∀ bucket, (serveAll cfg before).1.memory.lookup key = some bucket →
      ((allowedOf key (serveAll cfg requests).2).filter fun e =>
        bucket.resetAt ≤ e.time + t.ttl*1000 ∧ e.time < bucket.resetAt).length ≤ t.limit := by
  obtain ⟨now,hnow⟩ := exists_end requests
  have h := (keyWindows_serveAll hlimit httl hclock hnow hroutes).2
  refine ⟨fun a b hab => h.windowed.length_between hab,?_⟩
  rintro before later rfl bucket hbucket
  rw [List.map_append,List.pairwise_append] at hclock
  have hbefore := (keyWindows_serveAll hlimit httl hclock.1 (fun r hr => hnow r (List.mem_append_left _ hr))
    fun r hr => hroutes r (List.mem_append_left _ hr)).2
  obtain ⟨e₀,he₀,hopened⟩ := hbefore.opened bucket hbucket
  have hkept : e₀ ∈ allowedOf key (serveAll cfg (before ++ later)).2 := by
    rw [serveAll_append]
    exact (log_extends cfg (serveAll cfg before) later).sublist.filter _ |>.subset he₀
  rw [← hopened]
  exact h.windowed.length_within hkept

/-- A login route that allows two requests a minute. -/
def loginRoute : Route := ⟨true,false,some ⟨2,60⟩,js "AuthController",js "login"⟩

def loginAt (time : Nat) : ThrottledRequest := ⟨loginRoute,some (js "10.0.0.1"),none,time,true,time,true,time⟩

/-- Three requests late in one window and three early in the next: of each three the last is refused. -/
theorem logins_across_windows :
    (allowedOf (js "throttle:AuthController.login:10.0.0.1")
      (serveAll ⟨300,60⟩ ([0,59000,59500,60000,60500,61000].map loginAt)).2).map (·.time) = [0,59000,60000,60500] ∧
    ((allowedOf (js "throttle:AuthController.login:10.0.0.1")
      (serveAll ⟨300,60⟩ ([0,59000,59500,60000,60500,61000].map loginAt)).2).filter fun e => 59000 ≤ e.time ∧
      e.time ≤ 119000).length ≤ 4 := by
  refine ⟨by decide +kernel,?_⟩
  refine (fixed_window_bound ⟨300,60⟩ ⟨js "AuthController.login",2,60⟩ (js "throttle:AuthController.login:10.0.0.1") _
    (by decide) (by decide) (by decide) ?_).1 59000 119000 (by decide)
  intro r hr _
  obtain ⟨time,-,rfl⟩ := List.mem_map.mp hr
  rfl

end Steps
end JustMail.Platform
