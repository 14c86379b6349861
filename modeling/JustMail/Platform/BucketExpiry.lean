import JustMail.Foundation.Runs
import JustMail.Platform.Throttler

/-! When a client that has been quiet is let in again: the counters of the throttler are to be gone by
then, whatever commands have failed. -/
namespace JustMail.Platform
open Foundation

section Model
variable (cfg : RateConfig)

/-- The throttler, the time that its last request was over, and for each key that of the last request under it. -/
structure ThrottleRun where
  throttler : Throttler
  clock : Nat
  seen : JsString → Option Nat

/-- Before the first request. A client for Redis may be there or not. -/
def ThrottleRun.initial (connected : Bool) : ThrottleRun := ⟨⟨if connected then some .empty else none,.empty⟩,0,fun _ => none⟩

def throttleStep (s : ThrottleRun) (r : ThrottledRequest) : Option ThrottleRun :=
  some ⟨(canActivate cfg s.throttler r).1,r.memoryAt,fun k => if r.key cfg = some k then some r.memoryAt else s.seen k⟩

/-- Requests come one after the other. -/
def InOrder (s : ThrottleRun) (r : ThrottledRequest) : Prop := s.clock ≤ r.incrAt ∧ r.incrAt ≤ r.secondAt ∧ r.secondAt ≤ r.memoryAt

/-- The `EXPIRE` of a counter that an `INCR` has just set up does not fail. -/
def ExpirySet (s : ThrottleRun) (r : ThrottledRequest) : Prop :=
  ∀ ks ∈ s.throttler.redis, ∀ key ∈ r.key cfg, r.incrOk = true → (ks.incr r.incrAt key).2 = 1 → r.secondOk = true

end Model

section Redis
variable {ks : Keyspace JsString Nat} {key k : JsString} {ttl now : Nat} {r : ThrottledRequest}

/-- What is under the key afterwards expires: a window from now on, or when it did before. -/
theorem hitRedis_expires (hafter : r.incrAt ≤ r.secondAt) (hlater : r.secondAt ≤ now)
    (hset : r.incrOk = true → (ks.incr r.incrAt key).2 = 1 → r.secondOk = true) {e : Entry Nat}
    (h : (hitRedis ks key ttl r).1.find now key = some e) :
    e.expiresAt = some (r.secondAt + ttl*1000) ∨
      ∃ e₀, (ks.find now key = some e₀ ∨ ks.find r.incrAt key = some e₀) ∧ e.expiresAt = e₀.expiresAt := by
  have hincr : (ks.incr r.incrAt key).2 ≠ 1 → (ks.incr r.incrAt key).1.find now key = some e →
      ∃ e₀, (ks.find now key = some e₀ ∨ ks.find r.incrAt key = some e₀) ∧ e.expiresAt = e₀.expiresAt := by
    intro hcount hfind
    cases hold : ks.find r.incrAt key with
    | none => exact absurd (Keyspace.incr_first hold) hcount
    | some e₀ =>
      refine ⟨e₀,.inr rfl,?_⟩
      rw [Keyspace.find_incr_later ks (Nat.le_trans hafter hlater) hfind,hold,Option.bind_some]
  rw [hitRedis] at h
  split at h
  · exact .inr ⟨e,.inl h,rfl⟩
  · rename_i hok
    dsimp only at h
    split at h
    · rename_i hcount
      rw [if_pos (hset (by simpa using hok) hcount)] at h
      exact .inl (Keyspace.find_expire_later _ hlater h)
    · rename_i hcount
      split at h
      · exact .inr (hincr hcount h)
      · exact .inr (hincr hcount h)

/-- A counter that is not there is set up, if the `INCR` succeeds. -/
theorem hitRedis_first (h : ks.find r.incrAt key = none) {hit : Hit} (hhit : (hitRedis ks key ttl r).2 = some hit) : hit.count = 1 := by
  rw [hitRedis] at hhit
  split at hhit
  · exact absurd hhit nofun
  · dsimp only at hhit
    rw [if_pos (Keyspace.incr_first h)] at hhit
    split at hhit
    · rw [← Option.some.inj hhit]
      exact Keyspace.incr_first h
    · exact absurd hhit nofun

theorem hitRedis_other (ks : Keyspace JsString Nat) (ttl now : Nat) (r : ThrottledRequest) (hne : k ≠ key) :
    (hitRedis ks key ttl r).1.find now k = ks.find now k := by
  rw [hitRedis]
  split
  · rfl
  · dsimp only
    split
    · split
      · rw [Keyspace.find_expire_ne _ _ _ _ hne,Keyspace.find_incr_ne _ _ _ hne]
      · exact Keyspace.find_incr_ne _ _ _ hne
    · split <;> exact Keyspace.find_incr_ne _ _ _ hne

end Redis

/-- What becomes of the database and of the map. -/
theorem hit_redis (s : Throttler) (key : JsString) (ttl : Nat) (r : ThrottledRequest) :
    (s.hit key ttl r).1.redis = s.redis.map fun ks => (hitRedis ks key ttl r).1 := by
  rw [Throttler.hit]
  cases s.redis with
  | none => rfl
  | some ks =>
    dsimp only
    rw [Option.map_some]
    split
    · rename_i hhit
      rw [hhit]
    · rename_i hhit
      rw [hhit]

theorem hit_memory (s : Throttler) (key : JsString) (ttl : Nat) (r : ThrottledRequest) :
    (s.hit key ttl r).1.memory = s.memory ∨ (s.hit key ttl r).1.memory = (hitMemory s.memory key ttl r.memoryAt).1 := by
  rw [Throttler.hit]
  split
  · exact .inr rfl
  · split
    · exact .inl rfl
    · exact .inr rfl

section Runs
variable {cfg : RateConfig} {t : RouteLimit} {key : JsString} {s u : ThrottleRun} {r : ThrottledRequest}

/-- What is counted for the key is over a window after its last request. -/
structure Expiring (t : RouteLimit) (key : JsString) (s : ThrottleRun) : Prop where
  past : ∀ last, s.seen key = some last → last ≤ s.clock
  redis : ∀ ks, s.throttler.redis = some ks → ∀ e, ks.find s.clock key = some e →
    ∃ expiresAt last, e.expiresAt = some expiresAt ∧ s.seen key = some last ∧ expiresAt ≤ last + t.ttl*1000
  memory : ∀ b, s.throttler.memory.lookup key = some b → ∃ last, s.seen key = some last ∧ b.resetAt ≤ last + t.ttl*1000

theorem Expiring.initial (t : RouteLimit) (key : JsString) (connected : Bool) : Expiring t key (.initial connected) where
  past _ h := absurd h nofun
  redis ks hks e he := by
    cases connected with
    | false => exact absurd hks nofun
    | true =>
      cases hks
      exact absurd he nofun
  memory _ h := absurd h nofun

/-- Time passes. -/
private theorem Expiring.find (h : Expiring t key s) {ks : Keyspace JsString Nat} (hks : s.throttler.redis = some ks) {now : Nat}
    (hle : s.clock ≤ now) {e : Entry Nat} (he : ks.find now key = some e) :
    ∃ expiresAt last, e.expiresAt = some expiresAt ∧ s.seen key = some last ∧ expiresAt ≤ last + t.ttl*1000 := by
  rw [Keyspace.find_later ks hle] at he
  exact h.redis ks hks e (Option.filter_eq_some_iff.mp he).1

/-- A request under the key. What was counted before is over before a window from now. -/
private theorem expiring_hit (h : Expiring t key s) (horder : InOrder s r) {seen : JsString → Option Nat}
    (hseen : seen key = some r.memoryAt)
    (hset : ∀ ks ∈ s.throttler.redis, r.incrOk = true → (ks.incr r.incrAt key).2 = 1 → r.secondOk = true) :
    Expiring t key ⟨(s.throttler.hit key t.ttl r).1,r.memoryAt,seen⟩ := by
  obtain ⟨hstart,hmiddle,hend⟩ := horder
  have hbefore : ∀ last, s.seen key = some last → last ≤ r.memoryAt := by
    intro last hlast
    have := h.past last hlast
    omega
  refine ⟨fun last hlast => ?_,fun ks hks e he => ?_,fun b hb => ⟨r.memoryAt,hseen,?_⟩⟩
  · dsimp only at hlast
    rw [hseen] at hlast
    exact Nat.le_of_eq (Option.some.inj hlast).symm
  · rw [hit_redis] at hks
    obtain ⟨ks₀,hks₀,rfl⟩ := Option.map_eq_some_iff.mp hks
    rcases hitRedis_expires hmiddle hend (hset ks₀ hks₀) he with hnew | ⟨e₀,hfound,hsame⟩
    · exact ⟨_,r.memoryAt,hnew,hseen,Nat.add_le_add_right hend _⟩
    · obtain ⟨expiresAt,last,hexpires,hlast,hle⟩ : ∃ expiresAt last, e₀.expiresAt = some expiresAt ∧ s.seen key = some last ∧
          expiresAt ≤ last + t.ttl*1000 := by
        rcases hfound with hlater | hthen
        · exact h.find hks₀ (by omega) hlater
        · exact h.find hks₀ hstart hthen
      refine ⟨expiresAt,r.memoryAt,hsame.trans hexpires,hseen,?_⟩
      have := hbefore last hlast
      omega
  · have hold : ∀ b₀, s.throttler.memory.lookup key = some b₀ → b₀.resetAt ≤ r.memoryAt + t.ttl*1000 := by
      intro b₀ hb₀
      obtain ⟨last,hlast,hle⟩ := h.memory b₀ hb₀
      have := hbefore last hlast
      omega
    rcases hit_memory s.throttler key t.ttl r with hsame | hcounted
    · exact hold b (hsame ▸ hb)
    · dsimp only at hb
      rw [hcounted] at hb
      rcases hitMemory_resetAt hb with hnew | ⟨b₀,hb₀,hreset⟩
      · exact Nat.le_of_eq hnew
      · rw [hreset]
        exact hold b₀ hb₀

private theorem expiring_other (h : Expiring t key s) (horder : InOrder s r) {k : JsString} (hne : key ≠ k) (ttl : Nat)
    {seen : JsString → Option Nat} (hseen : seen key = s.seen key) : Expiring t key ⟨(s.throttler.hit k ttl r).1,r.memoryAt,seen⟩ := by
  obtain ⟨hstart,hmiddle,hend⟩ := horder
  have hlater : s.clock ≤ r.memoryAt := by omega
  refine ⟨fun last hlast => ?_,fun ks hks e he => ?_,fun b hb => ?_⟩
  · exact Nat.le_trans (h.past last (hseen ▸ hlast)) hlater
  · rw [hit_redis] at hks
    obtain ⟨ks₀,hks₀,rfl⟩ := Option.map_eq_some_iff.mp hks
    rw [hitRedis_other ks₀ ttl r.memoryAt r hne] at he
    dsimp only
    rw [hseen]
    exact h.find hks₀ hlater he
  · dsimp only at hb ⊢
    rw [hseen]
    rcases hit_memory s.throttler k ttl r with hsame | hcounted
    · exact h.memory b (hsame ▸ hb)
    · rw [hcounted] at hb
      rcases hitMemory_other s.throttler.memory ttl r.memoryAt hne with hleft | ⟨hgone,-⟩
      · exact h.memory b (hleft ▸ hb)
      · rw [hgone] at hb
        exact absurd hb nofun

theorem expiring_step (h : Expiring t key s) (horder : InOrder s r) (hset : ExpirySet cfg s r) (hshares : SharesLimit cfg t key r)
    (hstep : throttleStep cfg s r = some u) : Expiring t key u := by
  cases hstep
  cases hlimited : r.route.rateLimit cfg with
  | none =>
    have hnone : r.key cfg = none := by rw [ThrottledRequest.key,hlimited,Option.map_none]
    have hlater : s.clock ≤ r.memoryAt := by
      obtain ⟨hstart,hmiddle,hend⟩ := horder
      omega
    simp only [canActivate,hlimited,hnone]
    exact ⟨fun last hlast => Nat.le_trans (h.past last hlast) hlater,fun ks hks e he => h.find hks hlater he,h.memory⟩
  | some t' =>
    have hkey : r.key cfg = some (throttleKey t'.bucketId r.address) := by rw [ThrottledRequest.key,hlimited,Option.map_some]
    simp only [canActivate,hlimited]
    by_cases hsame : throttleKey t'.bucketId r.address = key
    · rw [hsame] at hkey ⊢
      obtain rfl : t' = t := Option.some.inj (hlimited.symm.trans (hshares hkey))
      exact expiring_hit h horder (if_pos hkey) fun ks hks => hset ks hks key hkey
    · exact expiring_other h horder (Ne.symm hsame) t'.ttl (if_neg (by rw [hkey]; simpa using hsame))

/-- A client that has been quiet for a window is let in, if no counter has been left without an expiry. -/
theorem quiet_client_allowed (hlimit : 0 < t.limit) {connected : Bool}
    (hrun : Run (throttleStep cfg) (fun s r => InOrder s r ∧ SharesLimit cfg t key r ∧ ExpirySet cfg s r) (.initial connected) s)
    (hkey : r.key cfg = some key) (hshares : SharesLimit cfg t key r) (horder : InOrder s r)
    (hquiet : ∀ last ∈ s.seen key, last + t.ttl*1000 ≤ r.incrAt) : (canActivate cfg s.throttler r).2.all (·.allowed) = true := by
  have h : Expiring t key s :=
    hrun.invariant (fun _ _ _ h ha hstep => expiring_step h ha.1 ha.2.2 ha.2.1 hstep) (.initial t key connected)
  obtain ⟨hstart,hmiddle,hend⟩ := horder
  have hlimited : r.route.rateLimit cfg = some t := hshares hkey
  have haddress : throttleKey t.bucketId r.address = key := by
    rw [ThrottledRequest.key,hlimited,Option.map_some] at hkey
    exact Option.some.inj hkey
  have hredis : ∀ ks, s.throttler.redis = some ks → ks.find r.incrAt key = none := by
    intro ks hks
    cases hfind : ks.find r.incrAt key with
    | none => rfl
    | some e =>
      obtain ⟨expiresAt,last,hexpires,hlast,hle⟩ := h.find hks hstart hfind
      have halive := Keyspace.alive_of_find hfind
      have hover := hquiet last hlast
      rw [Entry.alive,hexpires,Option.all_some,decide_eq_true_iff] at halive
      omega
  have hmemory : ∀ b, s.throttler.memory.lookup key = some b → b.resetAt ≤ r.memoryAt := by
    intro b hb
    obtain ⟨last,hlast,hle⟩ := h.memory b hb
    have hover := hquiet last hlast
    omega
  have hcount : (s.throttler.hit key t.ttl r).2.count = 1 := by
    rw [Throttler.hit]
    split
    · exact hitMemory_first hmemory
    · rename_i ks hks
      split
      · rename_i ks' hit hhit
        exact hitRedis_first (hredis ks hks) (congrArg Prod.snd hhit)
      · exact hitMemory_first hmemory
  simp only [canActivate,hlimited,haddress,Option.all_some,verdictOf_allowed,hcount]
  exact decide_eq_true hlimit

/-- One request a minute; the second command of a request may fail. -/
def pingAt (time : Nat) (secondOk : Bool) : ThrottledRequest :=
  ⟨⟨true,false,some ⟨1,60⟩,js "HealthController",js "ping"⟩,some (js "10.0.0.1"),none,time,true,time,secondOk,time⟩

def pingKey : JsString := js "throttle:HealthController.ping:10.0.0.1"

theorem next_minute_allowed : ∃ s, Run (throttleStep ⟨300,60⟩)
      (fun s r => InOrder s r ∧ SharesLimit ⟨300,60⟩ ⟨js "HealthController.ping",1,60⟩ pingKey r ∧
        ExpirySet ⟨300,60⟩ s r) (.initial true) s ∧
    s.seen pingKey = some 0 ∧ (canActivate ⟨300,60⟩ s.throttler (pingAt 60000 true)).2.all (·.allowed) = true := by
  have hrun : Run (throttleStep ⟨300,60⟩)
      (fun s r => InOrder s r ∧ SharesLimit ⟨300,60⟩ ⟨js "HealthController.ping",1,60⟩ pingKey r ∧
        ExpirySet ⟨300,60⟩ s r) (.initial true) _ :=
    .tail (pingAt 0 true) (.refl _) ⟨⟨Nat.le_refl 0,Nat.le_refl 0,Nat.le_refl 0⟩,fun _ => rfl,fun _ _ _ _ _ _ => rfl⟩ rfl
  refine ⟨_,hrun,by decide +kernel,?_⟩
  refine quiet_client_allowed (by decide) hrun rfl (fun _ => rfl) ⟨Nat.zero_le _,Nat.le_refl _,Nat.le_refl _⟩ fun last hlast => ?_
  have hzero : (some 0 : Option Nat) = some last := hlast
  cases hzero
  exact Nat.le_refl _

/-- The `EXPIRE` of the first request fails. The counter stays, and the request a minute later is refused. -/
theorem counter_never_expires :
    ¬∀ (cfg : RateConfig) (t : RouteLimit) (key : JsString) (connected : Bool) (s : ThrottleRun) (r : ThrottledRequest), 0 < t.limit →
      Run (throttleStep cfg) (fun s r => InOrder s r ∧ SharesLimit cfg t key r) (.initial connected) s →
      r.key cfg = some key → SharesLimit cfg t key r → InOrder s r → (∀ last ∈ s.seen key, last + t.ttl*1000 ≤ r.incrAt) →
      (canActivate cfg s.throttler r).2.all (·.allowed) = true := by
  intro h
  have hrun : Run (throttleStep ⟨300,60⟩) (fun s r => InOrder s r ∧ SharesLimit ⟨300,60⟩ ⟨js "HealthController.ping",1,60⟩ pingKey r)
      (.initial true) _ := .tail (pingAt 0 false) (.refl _) ⟨⟨Nat.le_refl 0,Nat.le_refl 0,Nat.le_refl 0⟩,fun _ => rfl⟩ rfl
  have hallowed := h ⟨300,60⟩ ⟨js "HealthController.ping",1,60⟩ pingKey true _ (pingAt 60000 true) (by decide) hrun rfl (fun _ => rfl)
    ⟨Nat.zero_le _,Nat.le_refl _,Nat.le_refl _⟩ fun last hlast => by
      have hzero : (some 0 : Option Nat) = some last := hlast
      cases hzero
      exact Nat.le_refl _
  revert hallowed
  decide +kernel

end Runs
end JustMail.Platform
