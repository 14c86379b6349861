import JustMail.Accounts.IdToken

/-! `resolveKey` when the issuer changes its keys: the key that a token names, and the list of keys
in the cache that may not have it yet. -/
namespace JustMail.Accounts
open Foundation Postfix
variable {κ π : Type}

section Resolve
variable (jwksUri : JsString) (times : Instants) (published : List (Jwk κ)) (cache : JwksCache κ) (kid : Json)

def freshKeys : Option (List (Jwk κ)) := ((cache jwksUri).filter fun e => times.loaded < e.expires).map (·.value)

/-- The keys that `resolveKey` comes to choose from: a fresh list with something in it, or what is published. -/
def keysAtHand : List (Jwk κ) := ((freshKeys jwksUri times cache).filter fun keys => !keys.isEmpty).getD published

/-- The key of the list that goes under the `kid`. A falsy `kid` stands for the first key. -/
def namedKey (keys : List (Jwk κ)) : Option (Jwk κ) :=
  if kid.truthy then keys.find? fun k : Jwk κ => k.hasKid kid else keys.head?.filter fun k : Jwk κ => k.hasKid kid

/-- The key that goes under the `kid` is one that can be imported. -/
def Importable (createPublicKey : Jwk κ → Option π) : Prop :=
  ∀ k, namedKey kid (keysAtHand jwksUri times published cache) = some k → (createPublicKey k).isSome = true

end Resolve

variable {createPublicKey : Jwk κ → Option π} {ttl : Nat} {jwksUri : JsString} {times : Instants}
  {published keys : List (Jwk κ)} {cache : JwksCache κ} {kid : Json} {key : Jwk κ}

theorem pick_isSome {kid : Option Json} (h : keys ≠ []) : ∃ key, pick kid keys = some key := by
  cases hpick : pick kid keys with
  | none => exact absurd (pick_eq_none hpick) h
  | some key => exact ⟨key,rfl⟩

theorem pick_nil (kid : Option Json) : pick kid ([] : List (Jwk κ)) = none := by
  rw [pick]
  cases kid.filter Json.truthy <;> rfl

/-- What is picked goes under the `kid` only where the list has it. -/
theorem pick_named : pick (some kid) keys = some key ∧ key.hasKid kid = true ↔ namedKey kid keys = some key := by
  rw [namedKey,pick]
  by_cases htruthy : kid.truthy = true
  · rw [Option.filter_some,if_pos htruthy,if_pos htruthy]
    dsimp only
    cases hfind : keys.find? fun k => k.hasKid kid with
    | none =>
      refine iff_of_false (fun hhead => ?_) (Option.some_ne_none key).symm
      have hmem : key ∈ keys := List.mem_of_mem_head? hhead.1
      exact absurd hhead.2 (List.find?_eq_none.mp hfind key hmem)
    | some named =>
      rw [Option.some_or]
      refine ⟨fun h => h.1,fun h => ⟨h,?_⟩⟩
      cases h
      exact List.find?_some hfind
  · rw [Option.filter_some,if_neg htruthy,if_neg htruthy,Option.filter_eq_some_iff]
    dsimp only
    rw [Option.or_self]

theorem namedKey_mem (h : namedKey kid keys = some key) : key ∈ keys := by
  rw [namedKey] at h
  split at h
  · exact List.mem_of_find?_eq_some h
  · exact List.mem_of_mem_head? (Option.filter_eq_some_iff.mp h).1

theorem keysAtHand_of_fresh (h : keys ∈ freshKeys jwksUri times cache) (hne : keys ≠ []) :
    keysAtHand jwksUri times published cache = keys := by
  have hfresh : (freshKeys jwksUri times cache).filter (fun keys => !keys.isEmpty) = some keys :=
    Option.filter_eq_some_iff.mpr ⟨h,by simpa using hne⟩
  rw [keysAtHand,hfresh,Option.getD_some]

theorem keysAtHand_cases (jwksUri : JsString) (times : Instants) (published : List (Jwk κ)) (cache : JwksCache κ) :
    keysAtHand jwksUri times published cache = published ∨
      ∃ keys ∈ freshKeys jwksUri times cache, keys ≠ [] ∧ keysAtHand jwksUri times published cache = keys := by
  cases hfresh : (freshKeys jwksUri times cache).filter fun keys => !keys.isEmpty with
  | none => exact .inl (by rw [keysAtHand,hfresh,Option.getD_none])
  | some keys =>
    obtain ⟨hkeys,hne⟩ := Option.filter_eq_some_iff.mp hfresh
    exact .inr ⟨keys,hkeys,by simpa using hne,by rw [keysAtHand,hfresh,Option.getD_some]⟩

/-- With the same keys at both fetches, it is one list that decides. -/
theorem selectKey_published (hpublished : published ≠ []) :
    ∃ key, pick (some kid) (keysAtHand jwksUri times published cache) = some key ∧
      (selectKey ttl jwksUri (some kid) times ⟨some published,some published⟩ cache).1 = .ok key := by
  obtain ⟨first,hfirst⟩ := pick_isSome hpublished
  have hforced : ∀ cache' : JwksCache κ, ((cache' jwksUri).filter fun e => !true && decide (times.loaded < e.expires)) = none :=
    fun cache' => Option.filter_eq_none_iff.mpr fun _ _ => by simp
  rw [keysAtHand,freshKeys,selectKey,loadKeys]
  simp only [Bool.not_false,Bool.true_and]
  cases hfresh : (cache jwksUri).filter fun e => decide (times.loaded < e.expires) with
  | none =>
    refine ⟨first,hfirst,?_⟩
    simp only [Option.map_some,hfirst]
  | some e =>
    by_cases hempty : e.value = []
    · -- an empty list is the one case in which the keys are fetched again
      refine ⟨first,?_,?_⟩
      · simpa [hempty,Option.filter_some] using hfirst
      · have hnone : pick (some kid) e.value = none := by rw [hempty,pick_nil]
        simp only [hnone,loadKeys,hforced,Option.map_some,hfirst]
    · obtain ⟨key,hkey⟩ := pick_isSome hempty
      refine ⟨key,?_,?_⟩
      · simpa [hempty,Option.filter_some] using hkey
      · simp only [hkey]

theorem selectKey_named (hpublished : published ≠ []) :
    (selectKey ttl jwksUri (some kid) times ⟨some published,some published⟩ cache).1 = .ok key ∧ key.hasKid kid = true ↔
      namedKey kid (keysAtHand jwksUri times published cache) = some key := by
  obtain ⟨selected,hpick,hselected⟩ := selectKey_published hpublished
  rw [← pick_named,hpick,hselected,Except.ok.injEq,Option.some.injEq]

theorem resolveKey_named {resolved : KeyObject κ π} (hpublished : published ≠ []) :
    (resolveKey ttl jwksUri (some kid) times ⟨some published,some published⟩ createPublicKey cache).1 = .ok resolved ∧
        resolved.jwk.hasKid kid = true ↔
      namedKey kid (keysAtHand jwksUri times published cache) = some resolved.jwk ∧
      createPublicKey resolved.jwk = some resolved.publicKey := by
  rw [resolveKey_ok_iff,and_right_comm,selectKey_named hpublished]

/-- The key that the `kid` names is not missed: a fresh list in the cache, unless it is empty, has it, and
a falsy `kid` is that of the first key. -/
structure KidAtHand (jwksUri : JsString) (times : Instants) (published : List (Jwk κ)) (cache : JwksCache κ) (kid : Json) : Prop where
  cached : kid.truthy = true → ∀ keys ∈ freshKeys jwksUri times cache, keys ≠ [] → ∃ k ∈ keys, k.hasKid kid = true
  first : kid.truthy = false → ∃ k ∈ (keysAtHand jwksUri times published cache).head?, k.hasKid kid = true

theorem kidAtHand_iff (hkid : ∃ k ∈ published, k.hasKid kid = true) :
    KidAtHand jwksUri times published cache kid ↔ ∃ key, namedKey kid (keysAtHand jwksUri times published cache) = some key := by
  by_cases htruthy : kid.truthy = true
  · have hfind : ∀ keys : List (Jwk κ), (∃ key, namedKey kid keys = some key) ↔ ∃ k ∈ keys, k.hasKid kid = true := by
      intro keys
      rw [namedKey,if_pos htruthy,← Option.isSome_iff_exists,List.find?_isSome]
    rw [hfind]
    constructor
    · rintro ⟨hcached,-⟩
      rcases keysAtHand_cases jwksUri times published cache with hathand | ⟨keys,hkeys,hne,hathand⟩
      · rwa [hathand]
      · rw [hathand]
        exact hcached htruthy keys hkeys hne
    · intro hathand
      refine ⟨fun _ keys hkeys hne => ?_,fun h => absurd htruthy (by simp [h])⟩
      rwa [keysAtHand_of_fresh hkeys hne] at hathand
  · have hfalsy : kid.truthy = false := by simpa using htruthy
    rw [namedKey,if_neg htruthy]
    constructor
    · rintro ⟨-,hfirst⟩
      obtain ⟨k,hk,hkid⟩ := hfirst hfalsy
      exact ⟨k,Option.filter_eq_some_iff.mpr ⟨hk,hkid⟩⟩
    · rintro ⟨k,hk⟩
      exact ⟨fun h => absurd h htruthy,fun _ => ⟨k,Option.filter_eq_some_iff.mp hk⟩⟩

/-- Where the `kid` of a token is that of a published key, a key of that `kid` is resolved exactly if the
cache does not hide it and it can be imported, and it is the published one exactly if the cache has no other
key for it. -/
theorem published_key_resolved (createPublicKey : Jwk κ → Option π) (ttl : Nat) (jwksUri : JsString) (times : Instants)
    (published : List (Jwk κ)) (cache : JwksCache κ) (kid : Json) (hkid : ∃ k ∈ published, k.hasKid kid = true) :
    ((∃ key, (resolveKey ttl jwksUri (some kid) times ⟨some published,some published⟩ createPublicKey cache).1 = .ok key ∧
        key.jwk.hasKid kid = true ∧ createPublicKey key.jwk = some key.publicKey) ↔
      KidAtHand jwksUri times published cache kid ∧ Importable jwksUri times published cache kid createPublicKey) ∧
    ((∃ key, (resolveKey ttl jwksUri (some kid) times ⟨some published,some published⟩ createPublicKey cache).1 = .ok key ∧
        key.jwk ∈ published ∧ key.jwk.hasKid kid = true ∧ createPublicKey key.jwk = some key.publicKey) ↔
      KidAtHand jwksUri times published cache kid ∧ Importable jwksUri times published cache kid createPublicKey ∧
      ∀ keys ∈ freshKeys jwksUri times cache, ∀ k, namedKey kid keys = some k → k ∈ published) := by
  obtain ⟨k₀,hk₀,hkid₀⟩ := hkid
  have hpublished : published ≠ [] := List.ne_nil_of_mem hk₀
  have hathand : KidAtHand jwksUri times published cache kid ↔
      ∃ key, namedKey kid (keysAtHand jwksUri times published cache) = some key := kidAtHand_iff ⟨k₀,hk₀,hkid₀⟩
  have himport : ∀ k, namedKey kid (keysAtHand jwksUri times published cache) = some k →
      Importable jwksUri times published cache kid createPublicKey → ∃ pub, createPublicKey k = some pub :=
    fun k hk h => Option.isSome_iff_exists.mp (h k hk)
  have hresolves : ∀ k pub, namedKey kid (keysAtHand jwksUri times published cache) = some k → createPublicKey k = some pub →
      (resolveKey ttl jwksUri (some kid) times ⟨some published,some published⟩ createPublicKey cache).1 = .ok ⟨k,pub⟩ ∧
        k.hasKid kid = true :=
    fun k pub hk hpub => (resolveKey_named hpublished).mpr ⟨hk,hpub⟩
  have hresolved : ∀ key, (resolveKey ttl jwksUri (some kid) times ⟨some published,some published⟩ createPublicKey cache).1 = .ok key →
      key.jwk.hasKid kid = true → namedKey kid (keysAtHand jwksUri times published cache) = some key.jwk ∧
        Importable jwksUri times published cache kid createPublicKey := by
    intro key hkey hkeykid
    obtain ⟨hnamed,hpub⟩ := (resolveKey_named hpublished).mp ⟨hkey,hkeykid⟩
    refine ⟨hnamed,fun k hk => ?_⟩
    obtain rfl := Option.some.inj (hnamed.symm.trans hk)
    exact Option.isSome_iff_exists.mpr ⟨_,hpub⟩
  rw [hathand]
  refine ⟨⟨?_,?_⟩,⟨?_,?_⟩⟩
  · rintro ⟨key,hkey,hkeykid,-⟩
    exact ⟨⟨key.jwk,(hresolved key hkey hkeykid).1⟩,(hresolved key hkey hkeykid).2⟩
  · rintro ⟨⟨k,hk⟩,himportable⟩
    obtain ⟨pub,hpub⟩ := himport k hk himportable
    exact ⟨⟨k,pub⟩,(hresolves k pub hk hpub).1,(hresolves k pub hk hpub).2,hpub⟩
  · rintro ⟨key,hkey,hmem,hkeykid,-⟩
    obtain ⟨hnamed,himportable⟩ := hresolved key hkey hkeykid
    refine ⟨⟨key.jwk,hnamed⟩,himportable,fun keys hkeys k hk => ?_⟩
    rw [keysAtHand_of_fresh hkeys (List.ne_nil_of_mem (namedKey_mem hk)),hk] at hnamed
    exact Option.some.inj hnamed ▸ hmem
  · rintro ⟨⟨k,hk⟩,himportable,hsame⟩
    obtain ⟨pub,hpub⟩ := himport k hk himportable
    refine ⟨⟨k,pub⟩,(hresolves k pub hk hpub).1,?_,(hresolves k pub hk hpub).2,hpub⟩
    rcases keysAtHand_cases jwksUri times published cache with hpub' | ⟨keys,hkeys,-,hcached⟩
    · exact hpub' ▸ namedKey_mem hk
    · exact hsame keys hkeys k (hcached ▸ hk)

def importAny (key : Jwk Nat) : Option Nat := some key.material

def rotatedJwks : List (Jwk Nat) := [⟨some (.string (js "k2")),2⟩]

/-- A list that has been fetched before the issuer changed its key. -/
def cacheBeforeRotation : JwksCache Nat := fun _ => some ⟨[⟨some (.string (js "k1")),1⟩],600000⟩

/-- While the list is fresh its first key stands for the new one. Once it has expired the new one is resolved. -/
theorem rotated_key_missed :
    ¬(∀ (times : Instants) (published : List (Jwk Nat)) (cache : JwksCache Nat) (kid : Json), (∃ k ∈ published, k.hasKid kid = true) →
      ∃ key, (resolveKey 600000 (js "u") (some kid) times ⟨some published,some published⟩ importAny cache).1 = .ok key ∧
        key.jwk.hasKid kid = true) := by
  intro h
  obtain ⟨key,hkey,hkid⟩ := h ⟨0,0,0,0⟩ rotatedJwks cacheBeforeRotation (.string (js "k2")) ⟨_,List.mem_cons_self,by decide⟩
  obtain rfl : (⟨⟨some (.string (js "k1")),1⟩,1⟩ : KeyObject Nat Nat) = key := Except.ok.inj hkey
  exact absurd hkid (by decide)

theorem expired_cache_resolved :
    ∃ key, (resolveKey 600000 (js "u") (some (.string (js "k2"))) ⟨600000,600000,600000,600000⟩ ⟨some rotatedJwks,some rotatedJwks⟩
      importAny cacheBeforeRotation).1 = .ok key ∧ key.jwk.hasKid (.string (js "k2")) = true ∧ importAny key.jwk = some key.publicKey := by
  refine (published_key_resolved importAny 600000 (js "u") ⟨600000,600000,600000,600000⟩ rotatedJwks cacheBeforeRotation
    (.string (js "k2")) ⟨_,List.mem_cons_self,by decide⟩).1.mpr ⟨⟨fun _ keys hkeys => ?_,fun h => ?_⟩,fun k _ => rfl⟩
  · exact nomatch hkeys
  · exact absurd h (by decide)

end JustMail.Accounts
