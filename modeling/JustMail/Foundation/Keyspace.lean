import Mathlib.Data.List.Basic
import Mathlib.Data.Option.Basic
import Mathlib.Order.Basic

/-! A key-value store of strings and sets whose keys expire, with the commands that
Redis has for them. A key with an expiry time is absent from that time on. -/
namespace JustMail.Foundation

/-- A weaker condition adds nothing. -/
theorem filter_later {α : Type} {p q : α → Bool} (h : ∀ a, q a = true → p a = true) {o : Option α} :
    (o.filter p).filter q = o.filter q := by
  rw [Option.filter_filter]
  congr 1
  funext a
  cases hq : q a with
  | true => simp [h a hq]
  | false => simp

/-- What is stored under a key, and when it expires if it does. -/
structure Entry (ν : Type) where
  value : ν
  expiresAt : Option Nat

def Entry.alive {ν : Type} (now : Nat) (e : Entry ν) : Bool := e.expiresAt.all (now < ·)

@[simp] theorem Entry.alive_some {ν : Type} {now expiresAt : Nat} {value : ν} :
    Entry.alive now ⟨value,some expiresAt⟩ = decide (now < expiresAt) := by
  simp [Entry.alive]

theorem Entry.alive_mono {ν : Type} {now later : Nat} {e : Entry ν} (hle : now ≤ later) (h : e.alive later = true) :
    e.alive now = true := by
  obtain ⟨value,_ | expiresAt⟩ := e
  · rfl
  · rw [Entry.alive_some,decide_eq_true_iff] at h ⊢
    exact Nat.lt_of_le_of_lt hle h

inductive Stored (α μ : Type) where
  | string (value : α)
  | set (members : List μ)

structure Keyspace (κ ν : Type) where
  entries : κ → Option (Entry ν)

namespace Keyspace

section Keys
variable {κ ν : Type} {ttl now later : Nat} {key : κ}

def empty : Keyspace κ ν := ⟨fun _ => none⟩

def find (ks : Keyspace κ ν) (now : Nat) (key : κ) : Option (Entry ν) := (ks.entries key).filter (·.alive now)

@[simp] theorem find_empty (now : Nat) (key : κ) : (empty : Keyspace κ ν).find now key = none := rfl

theorem alive_of_find {ks : Keyspace κ ν} {now : Nat} {e : Entry ν} (h : ks.find now key = some e) :
    e.alive now = true := (Option.filter_eq_some_iff.mp h).2

/-- What is found later is what is found now and does not expire until then. -/
theorem find_later (ks : Keyspace κ ν) (hle : now ≤ later) (key : κ) :
    ks.find later key = (ks.find now key).filter (·.alive later) :=
  (filter_later fun _ h => Entry.alive_mono hle h).symm

variable [DecidableEq κ]

def put (ks : Keyspace κ ν) (key : κ) (entry : Option (Entry ν)) : Keyspace κ ν :=
  ⟨fun k => if k = key then entry else ks.entries k⟩

theorem find_put (ks : Keyspace κ ν) (key : κ) (entry : Option (Entry ν)) (now : Nat) (k : κ) :
    (ks.put key entry).find now k = if k = key then entry.filter (·.alive now) else ks.find now k := by
  by_cases hk : k = key <;> simp [find,put,hk]

/-- `SET key value EX ttl`. -/
def setEx (ks : Keyspace κ ν) (now : Nat) (key : κ) (value : ν) (ttl : Nat) : Keyspace κ ν :=
  ks.put key (some ⟨value,some (now + ttl)⟩)

/-- `EXPIRE key ttl`. -/
def expire (ks : Keyspace κ ν) (now : Nat) (key : κ) (ttl : Nat) : Keyspace κ ν :=
  match ks.find now key with
  | none => ks
  | some e => ks.put key (some ⟨e.value,some (now + ttl)⟩)

/-- `DEL key ..`. -/
def del (ks : Keyspace κ ν) (keys : List κ) : Keyspace κ ν := ⟨fun k => if k ∈ keys then none else ks.entries k⟩

private theorem filter_alive (value : ν) (now : Nat) (hpos : 0 < ttl) :
    (some (⟨value,some (now + ttl)⟩ : Entry ν)).filter (·.alive now) = some ⟨value,some (now + ttl)⟩ :=
  Option.filter_eq_some_iff.mpr ⟨rfl,by simp [hpos]⟩

theorem find_setEx (ks : Keyspace κ ν) (now : Nat) (key : κ) (value : ν) (hpos : 0 < ttl) (k : κ) :
    (ks.setEx now key value ttl).find now k = if k = key then some ⟨value,some (now + ttl)⟩ else ks.find now k := by
  rw [setEx,find_put,filter_alive value now hpos]

theorem find_expire (ks : Keyspace κ ν) (now : Nat) (key : κ) (hpos : 0 < ttl) (k : κ) :
    (ks.expire now key ttl).find now k =
      if k = key then (ks.find now key).map fun e => ⟨e.value,some (now + ttl)⟩ else ks.find now k := by
  rw [expire]
  cases h : ks.find now key with
  | none =>
    by_cases hk : k = key
    · simp [hk,h]
    · simp [hk]
  | some e =>
    rw [find_put,filter_alive e.value now hpos]
    rfl

theorem find_del (ks : Keyspace κ ν) (keys : List κ) (now : Nat) (k : κ) :
    (ks.del keys).find now k = if k ∈ keys then none else ks.find now k := by
  by_cases hk : k ∈ keys <;> simp [find,del,hk]

/-- `INCR key`, with the new value. A new counter has no expiry. -/
def incr (ks : Keyspace κ Nat) (now : Nat) (key : κ) : Keyspace κ Nat × Nat :=
  match ks.find now key with
  | none => (ks.put key (some ⟨1,none⟩),1)
  | some e => (ks.put key (some ⟨e.value+1,e.expiresAt⟩),e.value+1)

theorem incr_first {ks : Keyspace κ Nat} {now : Nat} (h : ks.find now key = none) : (ks.incr now key).2 = 1 := by rw [incr,h]

/-- The counter that `INCR` leaves. -/
theorem find_incr (ks : Keyspace κ Nat) (now : Nat) (key k : κ) :
    (ks.incr now key).1.find now k =
      if k = key then some ⟨(ks.incr now key).2,(ks.find now key).bind (·.expiresAt)⟩ else ks.find now k := by
  rw [incr]
  cases h : ks.find now key with
  | none =>
    rw [find_put]
    rfl
  | some e =>
    have halive : (⟨e.value+1,e.expiresAt⟩ : Entry Nat).alive now = true := alive_of_find (e := e) h
    rw [find_put]
    simp only [Option.bind_some,Option.filter_some,halive,if_true]

/-- It is there until the counter before it would have expired. -/
theorem find_incr_later (ks : Keyspace κ Nat) (hle : now ≤ later) {e : Entry Nat}
    (h : (ks.incr now key).1.find later key = some e) : e.expiresAt = (ks.find now key).bind (·.expiresAt) := by
  rw [find_later _ hle,find_incr,if_pos rfl] at h
  rw [← Option.some.inj (Option.filter_eq_some_iff.mp h).1]

theorem find_expire_later (ks : Keyspace κ ν) (hle : now ≤ later) {e : Entry ν}
    (h : (ks.expire now key ttl).find later key = some e) : e.expiresAt = some (now + ttl) := by
  rw [expire] at h
  cases hfind : ks.find now key with
  | none =>
    rw [hfind,find_later _ hle,hfind] at h
    exact absurd h nofun
  | some e₀ =>
    rw [hfind] at h
    dsimp only at h
    rw [find_put,if_pos rfl] at h
    rw [← Option.some.inj (Option.filter_eq_some_iff.mp h).1]

theorem find_incr_ne (ks : Keyspace κ Nat) (now later : Nat) {key k : κ} (h : k ≠ key) :
    (ks.incr now key).1.find later k = ks.find later k := by
  rw [incr]
  split <;> rw [find_put,if_neg h]

theorem find_expire_ne (ks : Keyspace κ ν) (now later ttl : Nat) {key k : κ} (h : k ≠ key) :
    (ks.expire now key ttl).find later k = ks.find later k := by
  rw [expire]
  split
  · rfl
  · rw [find_put,if_neg h]

end Keys

section Values
variable {κ α μ : Type} [DecidableEq κ] [DecidableEq μ]

/-- `GET key`; the error of a key that holds a set is `none`. -/
def get (ks : Keyspace κ (Stored α μ)) (now : Nat) (key : κ) : Option (Option α) :=
  match ks.find now key with
  | none => some none
  | some ⟨.string value,_⟩ => some (some value)
  | some ⟨.set _,_⟩ => none

/-- `SMEMBERS key`; the error of a key that holds a string is `none`. -/
def smembers (ks : Keyspace κ (Stored α μ)) (now : Nat) (key : κ) : Option (List μ) :=
  match ks.find now key with
  | none => some []
  | some ⟨.set members,_⟩ => some members
  | some ⟨.string _,_⟩ => none

/-- `SADD key member`. A new set has no expiry. -/
def sadd (ks : Keyspace κ (Stored α μ)) (now : Nat) (key : κ) (member : μ) : Keyspace κ (Stored α μ) :=
  match ks.find now key with
  | none => ks.put key (some ⟨.set [member],none⟩)
  | some ⟨.set members,expiresAt⟩ =>
    ks.put key (some ⟨.set (if member ∈ members then members else members ++ [member]),expiresAt⟩)
  | some ⟨.string _,_⟩ => ks

/-- `SREM key member`. A set that becomes empty goes away. -/
def srem (ks : Keyspace κ (Stored α μ)) (now : Nat) (key : κ) (member : μ) : Keyspace κ (Stored α μ) :=
  match ks.find now key with
  | some ⟨.set members,expiresAt⟩ =>
    let left := members.filter (· ≠ member)
    ks.put key (if left.isEmpty then none else some ⟨.set left,expiresAt⟩)
  | _ => ks

/-- The other keys are left alone. -/
theorem find_sadd_ne (ks : Keyspace κ (Stored α μ)) (now : Nat) {key k : κ} (member : μ) (h : k ≠ key) :
    (ks.sadd now key member).find now k = ks.find now k := by
  rw [sadd]
  split
  · rw [find_put,if_neg h]
  · rw [find_put,if_neg h]
  · rfl

/-- The set that `SADD` leaves. -/
theorem find_sadd_self (ks : Keyspace κ (Stored α μ)) (now : Nat) {key : κ} {old : List μ} (h : ks.smembers now key = some old)
    (member : μ) : ∃ members expiresAt, (ks.sadd now key member).find now key = some ⟨.set members,expiresAt⟩ ∧
      ∀ m, m ∈ members ↔ m = member ∨ m ∈ old := by
  rw [sadd]
  rw [smembers] at h
  split at h
  · cases h
    refine ⟨[member],none,?_,by simp⟩
    rw [find_put,if_pos rfl]
    rfl
  · rename_i members expiresAt hset
    obtain rfl := Option.some.inj h
    refine ⟨if member ∈ members then members else members ++ [member],expiresAt,?_,?_⟩
    · have halive : (⟨.set members,expiresAt⟩ : Entry (Stored α μ)).alive now = true := alive_of_find hset
      rw [find_put,if_pos rfl]
      exact Option.filter_eq_some_iff.mpr ⟨rfl,halive⟩
    · intro m
      split
      · rename_i hmem
        constructor
        · exact .inr
        · rintro (rfl | hm)
          · exact hmem
          · exact hm
      · rw [List.mem_append,List.mem_singleton,or_comm]
  · simp at h

theorem find_srem_ne (ks : Keyspace κ (Stored α μ)) (now : Nat) {key k : κ} (member : μ) (h : k ≠ key) :
    (ks.srem now key member).find now k = ks.find now k := by
  rw [srem]
  split
  · rw [find_put,if_neg h]
  · rfl

end Values
end Keyspace
end JustMail.Foundation
