import JustMail.Accounts.Provisioning

/-! `verifyIdToken`: the id_token of an OpenID Connect login, its key in the JWKS of the issuer
and the claims it makes. -/
namespace JustMail.Accounts
open Foundation Postfix

section Keys
variable {κ : Type}

structure Jwk (κ : Type) where
  kid : Option Json
  material : κ

/-- A key of the JWKS, and what `createPublicKey` has made of it. -/
structure KeyObject (κ π : Type) where
  jwk : Jwk κ
  publicKey : π

structure JwksEntry (κ : Type) where
  value : List (Jwk κ)
  expires : Nat

abbrev JwksCache (κ : Type) : Type := JsString → Option (JwksEntry κ)

/-- When the cache is read, when each of the two fetches has returned, and when claims are checked. -/
structure Instants where
  loaded : Nat
  fetched : Nat
  refetched : Nat
  checked : Nat

/-- What the first and the second fetch of the JWKS return; `none` where it throws. -/
structure Fetches (κ : Type) where
  fetched : Option (List (Jwk κ))
  refetched : Option (List (Jwk κ))

inductive OidcError where
  | malformed
  | unparsable
  | requestFailed
  | noMatchingKey
  | unusableKey
  | unsupportedAlg
  | signature
  | issuerMismatch
  | audienceMismatch
  | expired
  | issuedInFuture
  | nonceMismatch
  | missingSub
  deriving DecidableEq

def Json.isNull : Json → Bool
  | .null => true
  | _ => false

/-- `===` for values that come from JSON, where no two objects are the same. -/
def Json.strictEq : Json → Json → Bool
  | .null, .null => true
  | .bool a, .bool b => a == b
  | .number a, .number b => a == b
  | .string a, .string b => a == b
  | _, _ => false

def Jwk.hasKid (kid : Json) (k : Jwk κ) : Bool := k.kid.any fun v => v.strictEq kid

variable (ttl : Nat) (jwksUri : JsString) (kid : Option Json) (times : Instants) (fetches : Fetches κ)

def loadKeys (force : Bool) (fetchedAt : Nat) (doc : Option (List (Jwk κ))) (cache : JwksCache κ) : Option (JwksCache κ × List (Jwk κ)) :=
  match (cache jwksUri).filter fun e => !force && times.loaded < e.expires with
  | some e => some (cache,e.value)
  | none => doc.map fun keys => (Function.update cache jwksUri (some ⟨keys,fetchedAt + ttl⟩),keys)

/-- A `kid` that is not found, or that is not named, gives the first key. -/
def pick (keys : List (Jwk κ)) : Option (Jwk κ) :=
  (match kid.filter Json.truthy with
    | some kid => keys.find? fun k : Jwk κ => k.hasKid kid
    | none => keys.head?).or keys.head?

/-- The key that `resolveKey` comes to. -/
def selectKey (cache : JwksCache κ) : Except OidcError (Jwk κ) × JwksCache κ :=
  match loadKeys ttl jwksUri times false times.fetched fetches.fetched cache with
  | none => (.error .requestFailed,cache)
  | some (cache,keys) => match pick kid keys with
    | some key => (.ok key,cache)
    | none => match loadKeys ttl jwksUri times true times.refetched fetches.refetched cache with
      | none => (.error .requestFailed,cache)
      | some (cache,keys) => match pick kid keys with
        | some key => (.ok key,cache)
        | none => (.error .noMatchingKey,cache)

/-- `createPublicKey` throws for a key that it cannot import. -/
def resolveKey {π : Type} (createPublicKey : Jwk κ → Option π) (cache : JwksCache κ) : Except OidcError (KeyObject κ π) × JwksCache κ :=
  match selectKey ttl jwksUri kid times fetches cache with
  | (.error e,cache) => (.error e,cache)
  | (.ok key,cache) => match createPublicKey key with
    | none => (.error .unusableKey,cache)
    | some pub => (.ok ⟨key,pub⟩,cache)

end Keys

section Verify
variable {κ π ν : Type} [LinearOrder ν] [Add ν] [Sub ν] [NatCast ν]

/-- What `verifyIdToken` uses of the runtime: `JSON.parse` of base64url text, keys and signatures of
`node:crypto`, and the number that a JSON number stands for. `none` is an exception. -/
structure OidcRuntime (κ π ν : Type) where
  b64urlToJson : JsString → Option Json
  createPublicKey : Jwk κ → Option π
  cryptoVerify : JsString → Bool → JsString → π → List Nat → Option Bool
  numeric : JsString → ν
  JWKS_TTL_MS : Nat

structure IdTokenParams (ν : Type) where
  idToken : JsString
  jwksUri : JsString
  issuer : JsString
  clientId : JsString
  nonce : JsString
  clockSkewSec : Option ν

def RS_HASH : List (JsString × JsString) := [(js "RS256",js "sha256"),(js "RS384",js "sha384"),(js "RS512",js "sha512")]

def ES_HASH : List (JsString × JsString) := [(js "ES256",js "sha256"),(js "ES384",js "sha384"),(js "ES512",js "sha512")]

/-- The digest of an algorithm, and whether signatures are in the form of IEEE P1363. `alg` is made
a property name; one that all objects inherit makes `cryptoVerify` throw. -/
def digestOf (alg : Option Json) : Option (JsString × Bool) :=
  alg.bind fun alg => ((RS_HASH.lookup alg.text).map (·,false)).or ((ES_HASH.lookup alg.text).map (·,true))

variable (rt : OidcRuntime κ π ν) (params : IdTokenParams ν) (times : Instants) (fetches : Fetches κ)

def audienceOf (claims : Json) : List (Option Json) :=
  match claims.field (js "aud") with
  | some (.array items) => items.map some
  | aud => [aud]

def numberOf (v : Option Json) : Option ν := v.bind fun v => match v with
  | .number text => some (rt.numeric text)
  | _ => none

def isText (text : JsString) (v : Option Json) : Bool := v.any fun v => v.strictEq (.string text)

def skewOf : ν := params.clockSkewSec.getD (60 : Nat)

/-- `Math.floor(Date.now() / 1000)`. -/
def nowOf : ν := (times.checked / 1000 : Nat)

def checkClaims (claims : Json) : Except OidcError Json :=
  if claims.isNull then .error .unparsable
  else if !isText params.issuer (claims.field (js "iss")) then .error .issuerMismatch
  else if !(audienceOf claims).any (isText params.clientId) then .error .audienceMismatch
  else if (numberOf rt (claims.field (js "exp"))).any fun exp => exp + skewOf params < nowOf times then .error .expired
  else if (numberOf rt (claims.field (js "iat"))).any fun iat => nowOf times < iat - skewOf params then .error .issuedInFuture
  else if !isText params.nonce (claims.field (js "nonce")) then .error .nonceMismatch
  else if !(claims.field (js "sub")).any Json.truthy then .error .missingSub
  else .ok claims

def verifySignature (headerB64 payloadB64 sigB64 : JsString) (header : Json) (pub : π) : Except OidcError Unit :=
  match digestOf (header.field (js "alg")) with
  | none => .error .unsupportedAlg
  | some (hash,p1363) =>
    match rt.cryptoVerify hash p1363 (headerB64 ++ unit '.' :: payloadB64) pub (bufferFromBase64 sigB64) with
    | some true => .ok ()
    | _ => .error .signature

def verifyIdToken (cache : JwksCache κ) : Except OidcError Json × JwksCache κ :=
  match params.idToken.splitOn (unit '.') with
  | [headerB64,payloadB64,sigB64] => match (rt.b64urlToJson headerB64).filter fun header => !header.isNull with
    | none => (.error .unparsable,cache)
    | some header => match resolveKey rt.JWKS_TTL_MS params.jwksUri (header.field (js "kid")) times fetches rt.createPublicKey cache with
      | (.error e,cache) => (.error e,cache)
      | (.ok key,cache) => match verifySignature rt headerB64 payloadB64 sigB64 header key.publicKey with
        | .error e => (.error e,cache)
        | .ok () => match rt.b64urlToJson payloadB64 with
          | none => (.error .unparsable,cache)
          | some claims => (checkClaims rt params times claims,cache)
  | _ => (.error .malformed,cache)

/-- The JWKS that the key is taken from: the cached one until it expires, else the one fetched, and
once more where that is empty. -/
def jwksInUse (cache : JwksCache κ) : List (Jwk κ) :=
  let first := (((cache params.jwksUri).filter fun e => times.loaded < e.expires).map (·.value)).getD (fetches.fetched.getD [])
  if first.isEmpty then fetches.refetched.getD [] else first

/-- A string, list or object with something in it, or a value that is not falsy. -/
def Json.nonEmpty : Json → Bool
  | .array items => !items.isEmpty
  | .object fields => !fields.isEmpty
  | v => v.truthy

/-- What acceptance is to mean. -/
def SoundlyAccepted (cache : JwksCache κ) (claims : Json) : Prop :=
  ∃ headerB64 payloadB64 sigB64 header key pub hash p1363,
    params.idToken.splitOn (unit '.') = [headerB64,payloadB64,sigB64] ∧
    rt.b64urlToJson headerB64 = some header ∧ rt.b64urlToJson payloadB64 = some claims ∧
    -- the signature
    key ∈ jwksInUse params times fetches cache ∧ rt.createPublicKey key = some pub ∧
    digestOf (header.field (js "alg")) = some (hash,p1363) ∧
    rt.cryptoVerify hash p1363 (headerB64 ++ unit '.' :: payloadB64) pub (bufferFromBase64 sigB64) = some true ∧
    (∀ kid ∈ header.field (js "kid"), kid.truthy = true → key.hasKid kid = true) ∧
    -- the claims
    isText params.issuer (claims.field (js "iss")) = true ∧ (audienceOf claims).any (isText params.clientId) = true ∧
    (∃ exp ∈ numberOf rt (claims.field (js "exp")), nowOf times ≤ exp + skewOf params) ∧
    (∀ iat ∈ numberOf rt (claims.field (js "iat")), iat - skewOf params ≤ nowOf times) ∧
    isText params.nonce (claims.field (js "nonce")) = true ∧ (claims.field (js "sub")).any Json.nonEmpty = true

/-- The JWKS has a key with the `kid` that the header names, `exp` is there as a number, and `sub` is no
empty list or object. -/
def TokenComplete (cache : JwksCache κ) : Prop :=
  ∀ headerB64 payloadB64 sigB64 header claims, params.idToken.splitOn (unit '.') = [headerB64,payloadB64,sigB64] →
    rt.b64urlToJson headerB64 = some header → rt.b64urlToJson payloadB64 = some claims →
    (∀ kid ∈ header.field (js "kid"), kid.truthy = true → ∃ key ∈ jwksInUse params times fetches cache, key.hasKid kid = true) ∧
    (numberOf rt (claims.field (js "exp"))).isSome = true ∧
    ∀ sub ∈ claims.field (js "sub"), sub.truthy = true → sub.nonEmpty = true

end Verify

section Sound
variable {κ π ν : Type} {rt : OidcRuntime κ π ν} {params : IdTokenParams ν} {times : Instants}
  {fetches : Fetches κ} {cache cache' : JwksCache κ} {kid : Option Json} {key : Jwk κ} {claims header : Json}
variable {keys : List (Jwk κ)}

theorem pick_mem (h : pick kid keys = some key) : key ∈ keys := by
  rw [pick,Option.or_eq_some_iff] at h
  rcases h with hnamed | ⟨-,hfirst⟩
  · split at hnamed
    · exact List.mem_of_find?_eq_some hnamed
    · exact List.mem_of_mem_head? hnamed
  · exact List.mem_of_mem_head? hfirst

theorem pick_eq_none (h : pick kid keys = none) : keys = [] := by
  rw [pick,Option.or_eq_none_iff] at h
  simpa using h.2

/-- The key is one with the `kid` that is named, if there is such a key. -/
theorem pick_hasKid {name : Json} (h : pick (some name) keys = some key) (htruthy : name.truthy = true)
    (hfound : ∃ k ∈ keys, k.hasKid name = true) : key.hasKid name = true := by
  rw [pick,Option.filter_some,if_pos htruthy] at h
  dsimp only at h
  cases hfind : keys.find? fun k => k.hasKid name with
  | none =>
    obtain ⟨k,hk,hkid⟩ := hfound
    exact absurd hkid (List.find?_eq_none.mp hfind k hk)
  | some k =>
    rw [hfind,Option.some_or] at h
    rw [← Option.some.inj h]
    exact List.find?_some hfind

/-- The keys that are loaded first, and those that are loaded by force. -/
theorem loadKeys_false {ttl fetchedAt : Nat} {uri : JsString} {doc : Option (List (Jwk κ))}
    (h : loadKeys ttl uri times false fetchedAt doc cache = some (cache',keys)) :
    keys = (((cache uri).filter fun e => times.loaded < e.expires).map (·.value)).getD (doc.getD []) := by
  rw [loadKeys] at h
  simp only [Bool.not_false,Bool.true_and] at h
  split at h
  · rename_i e he
    rw [he,← (Prod.mk.inj (Option.some.inj h)).2]
    rfl
  · rename_i hnone
    obtain ⟨keys',hdoc,hpair⟩ := Option.map_eq_some_iff.mp h
    rw [hnone,hdoc,← (Prod.mk.inj hpair).2]
    rfl

theorem loadKeys_true {ttl fetchedAt : Nat} {uri : JsString} {doc : Option (List (Jwk κ))}
    (h : loadKeys ttl uri times true fetchedAt doc cache = some (cache',keys)) : doc = some keys := by
  have hforced : ((cache uri).filter fun e => !true && decide (times.loaded < e.expires)) = none :=
    Option.filter_eq_none_iff.mpr fun _ _ => by simp
  rw [loadKeys,hforced] at h
  obtain ⟨keys',hdoc,hpair⟩ := Option.map_eq_some_iff.mp h
  rw [hdoc,(Prod.mk.inj hpair).2]

theorem selectKey_ok {ttl : Nat} (h : (selectKey ttl params.jwksUri kid times fetches cache).1 = .ok key) :
    pick kid (jwksInUse params times fetches cache) = some key := by
  rw [selectKey] at h
  split at h
  · simp at h
  · rename_i cache₁ keys hload
    have hfirst := loadKeys_false hload
    rw [jwksInUse,← hfirst]
    split at h
    · rename_i found hpick
      rw [if_neg (by simpa using List.ne_nil_of_mem (pick_mem hpick)),hpick,Except.ok.inj h]
    · rename_i hnone
      obtain rfl := pick_eq_none hnone
      split at h
      · simp at h
      · rename_i cache₂ keys₂ hload₂
        rw [if_pos List.isEmpty_nil,loadKeys_true hload₂,Option.getD_some]
        split at h
        · rename_i found hpick
          rw [hpick,Except.ok.inj h]
        · simp at h

/-- A key is resolved where the one that is come to can be imported. -/
theorem resolveKey_ok_iff {ttl : Nat} {jwksUri : JsString} {createPublicKey : Jwk κ → Option π} {resolved : KeyObject κ π} :
    (resolveKey ttl jwksUri kid times fetches createPublicKey cache).1 = .ok resolved ↔
      (selectKey ttl jwksUri kid times fetches cache).1 = .ok resolved.jwk ∧ createPublicKey resolved.jwk = some resolved.publicKey := by
  rw [resolveKey]
  obtain ⟨selected,cache₁⟩ := selectKey ttl jwksUri kid times fetches cache
  cases selected with
  | error e => simp
  | ok key =>
    dsimp only
    cases hpub : createPublicKey key with
    | none =>
      refine iff_of_false (by simp) ?_
      rintro ⟨hkey,himported⟩
      rw [← Except.ok.inj hkey,hpub] at himported
      exact nomatch himported
    | some pub =>
      constructor
      · intro h
        rw [← Except.ok.inj h]
        exact ⟨rfl,hpub⟩
      · rintro ⟨hkey,himported⟩
        obtain ⟨jwk,publicKey⟩ := resolved
        obtain rfl : key = jwk := Except.ok.inj hkey
        rw [Option.some.inj (hpub.symm.trans himported)]

theorem verifySignature_ok {headerB64 payloadB64 sigB64 : JsString} {pub : π} {u : Unit}
    (h : verifySignature rt headerB64 payloadB64 sigB64 header pub = .ok u) : ∃ hash p1363,
    digestOf (header.field (js "alg")) = some (hash,p1363) ∧
    rt.cryptoVerify hash p1363 (headerB64 ++ unit '.' :: payloadB64) pub (bufferFromBase64 sigB64) = some true := by
  rw [verifySignature] at h
  split at h
  · simp at h
  · rename_i hash p1363 hdigest
    split at h
    · rename_i hverified
      exact ⟨hash,p1363,hdigest,hverified⟩
    · simp at h

variable [LinearOrder ν] [Add ν] [Sub ν] [NatCast ν]

/-- The claims that are returned have passed all checks. -/
theorem checkClaims_ok {result : Json} (h : checkClaims rt params times claims = .ok result) : result = claims ∧
    isText params.issuer (claims.field (js "iss")) = true ∧ (audienceOf claims).any (isText params.clientId) = true ∧
    (∀ exp ∈ numberOf rt (claims.field (js "exp")), nowOf times ≤ exp + skewOf params) ∧
    (∀ iat ∈ numberOf rt (claims.field (js "iat")), iat - skewOf params ≤ nowOf times) ∧
    isText params.nonce (claims.field (js "nonce")) = true ∧ (claims.field (js "sub")).any Json.truthy = true := by
  rw [checkClaims] at h
  split at h
  · simp at h
  split at h
  · simp at h
  rename_i hiss
  split at h
  · simp at h
  rename_i haud
  split at h
  · simp at h
  rename_i hexp
  split at h
  · simp at h
  rename_i hiat
  split at h
  · simp at h
  rename_i hnonce
  split at h
  · simp at h
  rename_i hsub
  refine ⟨(Except.ok.inj h).symm,
    by simpa using hiss,by simpa using haud,fun exp hmem => ?_,fun iat hmem => ?_,by simpa using hnonce,by simpa using hsub⟩
  · rw [Option.mem_def.mp hmem] at hexp
    simpa using hexp
  · rw [Option.mem_def.mp hmem] at hiat
    simpa using hiat

theorem verifyIdToken_ok (h : (verifyIdToken rt params times fetches cache).1 = .ok claims) :
    ∃ headerB64 payloadB64 sigB64 header key pub u, params.idToken.splitOn (unit '.') = [headerB64,payloadB64,sigB64] ∧
      rt.b64urlToJson headerB64 = some header ∧ rt.b64urlToJson payloadB64 = some claims ∧
      pick (header.field (js "kid")) (jwksInUse params times fetches cache) = some key ∧ rt.createPublicKey key = some pub ∧
      verifySignature rt headerB64 payloadB64 sigB64 header pub = .ok u ∧ checkClaims rt params times claims = .ok claims := by
  rw [verifyIdToken] at h
  split at h
  · rename_i headerB64 payloadB64 sigB64 hsplit
    split at h
    · simp at h
    · rename_i header hheader
      split at h
      · simp at h
      · rename_i key cache₁ hkey
        split at h
        · simp at h
        · rename_i hsignature
          split at h
          · simp at h
          · rename_i payload hpayload
            obtain rfl := (checkClaims_ok h).1
            obtain ⟨hselected,hpub⟩ := resolveKey_ok_iff.mp (congrArg Prod.fst hkey)
            have hpick := selectKey_ok hselected
            have hheader' := (Option.filter_eq_some_iff.mp hheader).1
            exact ⟨headerB64,payloadB64,sigB64,header,key.jwk,key.publicKey,(),hsplit,hheader',hpayload,hpick,hpub,hsignature,h⟩
  · simp at h

/-- A token that is accepted is one that may be, exactly where it is complete. -/
theorem id_token_sound (h : (verifyIdToken rt params times fetches cache).1 = .ok claims) :
    SoundlyAccepted rt params times fetches cache claims ↔ TokenComplete rt params times fetches cache := by
  obtain ⟨headerB64,payloadB64,sigB64,header,key,pub,u,hsplit,hheader,hpayload,hpick,hpub,hsignature,hclaims⟩ := verifyIdToken_ok h
  obtain ⟨-,hiss,haud,hexp,hiat,hnonce,hsub⟩ := checkClaims_ok hclaims
  constructor
  · rintro ⟨headerB64',payloadB64',sigB64',header',key',pub,hash,p1363,hsplit',hheader',
      hpayload',hmem,-,-,-,hkid,-,-,⟨exp,hnumber,-⟩,-,-,hnonempty⟩
    intro headerB64'' payloadB64'' sigB64'' header'' claims'' hsplit'' hheader'' hpayload''
    obtain ⟨rfl,rfl,rfl⟩ : headerB64' = headerB64'' ∧ payloadB64' = payloadB64'' ∧ sigB64' = sigB64'' := by
      simpa using hsplit'.symm.trans hsplit''
    obtain rfl := Option.some.inj (hheader'.symm.trans hheader'')
    obtain rfl := Option.some.inj (hpayload'.symm.trans hpayload'')
    refine ⟨fun kid hkid' htruthy => ⟨key',hmem,hkid kid hkid' htruthy⟩,Option.isSome_iff_exists.mpr ⟨exp,hnumber⟩,fun sub hfield _ => ?_⟩
    rwa [Option.mem_def.mp hfield] at hnonempty
  · intro hcomplete
    obtain ⟨hkid,hnumber,hnonempty⟩ := hcomplete headerB64 payloadB64 sigB64 header claims hsplit hheader hpayload
    obtain ⟨hash,p1363,hdigest,hverify⟩ := verifySignature_ok hsignature
    obtain ⟨exp,hexp'⟩ := Option.isSome_iff_exists.mp hnumber
    refine ⟨headerB64,payloadB64,sigB64,header,key,pub,hash,p1363,hsplit,hheader,hpayload,pick_mem hpick,hpub,hdigest,hverify,?_,
      hiss,haud,⟨exp,hexp',hexp exp hexp'⟩,hiat,hnonce,?_⟩
    · intro kid hmem htruthy
      rw [Option.mem_def.mp hmem] at hpick
      exact pick_hasKid hpick htruthy (hkid kid hmem htruthy)
    · obtain ⟨sub,hfield,htruthy⟩ : ∃ sub, claims.field (js "sub") = some sub ∧ sub.truthy = true := by
        cases hfield : claims.field (js "sub") with
        | none => simp [hfield] at hsub
        | some sub => exact ⟨sub,rfl,by simpa [hfield] using hsub⟩
      rw [hfield]
      exact hnonempty sub hfield htruthy

def headerJson : Json := .object [(js "alg",.string (js "RS256"))]

def rotatedHeaderJson : Json := .object [(js "alg",.string (js "RS256")),(js "kid",.string (js "k2"))]

def claimsJson (more : List (JsString × Json)) : Json :=
  .object ([(js "iss",.string (js "i")),(js "aud",.string (js "c")),(js "nonce",.string (js "n")),(js "sub",.string (js "s"))] ++ more)

/-- The texts of the four values above, and a scheme whose signatures are the name of the key. -/
def plainRuntime : OidcRuntime JsString JsString Int where
  b64urlToJson part :=
    [(js "\x7b\"alg\":\"RS256\"\x7d",headerJson),(js "\x7b\"alg\":\"RS256\",\"kid\":\"k2\"\x7d",rotatedHeaderJson),
      (js "\x7b\"iss\":\"i\",\"aud\":\"c\",\"nonce\":\"n\",\"sub\":\"s\"\x7d",claimsJson []),
      (js "\x7b\"iss\":\"i\",\"aud\":\"c\",\"nonce\":\"n\",\"sub\":\"s\",\"exp\":60\x7d",claimsJson [(js "exp",.number (js "60"))])].lookup
      ((bufferFromBase64 part).map (·.toUInt16))
  createPublicKey k := some k.material
  cryptoVerify _ _ _ pub signature := some (signature.map (·.toUInt16) = pub)
  numeric text := text.foldl (fun n c => 10 * n + (c.toNat - 48)) 0
  JWKS_TTL_MS := 600000

def tokenParams (idToken : String) : IdTokenParams Int := ⟨js idToken,js "u",js "i",js "c",js "n",none⟩

def noCache : JwksCache JsString := fun _ => none

def onlyFirstKey : Fetches JsString := ⟨some [⟨some (.string (js "k1")),js "k1"⟩],none⟩

def freshToken : IdTokenParams Int :=
  tokenParams "eyJhbGciOiJSUzI1NiJ9.eyJpc3MiOiJpIiwiYXVkIjoiYyIsIm5vbmNlIjoibiIsInN1YiI6InMiLCJleHAiOjYwfQ.azE"

/-- A header that names a key which the JWKS does not have, and claims without `exp`. -/
def timelessToken : IdTokenParams Int :=
  tokenParams "eyJhbGciOiJSUzI1NiIsImtpZCI6ImsyIn0.eyJpc3MiOiJpIiwiYXVkIjoiYyIsIm5vbmNlIjoibiIsInN1YiI6InMifQ.azE"

theorem fresh_token_sound :
    SoundlyAccepted plainRuntime freshToken ⟨0,0,0,90000⟩ onlyFirstKey noCache (claimsJson [(js "exp",.number (js "60"))]) := by
  have haccepted : (verifyIdToken plainRuntime freshToken ⟨0,0,0,90000⟩ onlyFirstKey noCache).1 =
    .ok (claimsJson [(js "exp",.number (js "60"))]) := rfl
  refine (id_token_sound haccepted).mpr fun headerB64 payloadB64 sigB64 header claims hsplit hheader hpayload => ?_
  have hparts : freshToken.idToken.splitOn (unit '.') = [js "eyJhbGciOiJSUzI1NiJ9",
      js "eyJpc3MiOiJpIiwiYXVkIjoiYyIsIm5vbmNlIjoibiIsInN1YiI6InMiLCJleHAiOjYwfQ",js "azE"] := by decide +kernel
  obtain ⟨rfl,rfl,rfl⟩ : js "eyJhbGciOiJSUzI1NiJ9" = headerB64 ∧
      js "eyJpc3MiOiJpIiwiYXVkIjoiYyIsIm5vbmNlIjoibiIsInN1YiI6InMiLCJleHAiOjYwfQ" = payloadB64 ∧ js "azE" = sigB64 := by
    simpa using hparts.symm.trans hsplit
  obtain rfl : headerJson = header := Option.some.inj hheader
  obtain rfl : claimsJson [(js "exp",.number (js "60"))] = claims := Option.some.inj hpayload
  refine ⟨fun kid hkid => ?_,rfl,fun sub hsub htruthy => ?_⟩
  · exact nomatch hkid
  · obtain rfl : Json.string (js "s") = sub := Option.some.inj hsub
    exact htruthy

/-- The first key of the JWKS does for any `kid`, and a token without `exp` never expires. -/
theorem timeless_token_accepted : (verifyIdToken plainRuntime timelessToken ⟨0,0,0,90000⟩ onlyFirstKey noCache).1 = .ok (claimsJson []) ∧
    ¬SoundlyAccepted plainRuntime timelessToken ⟨0,0,0,90000⟩ onlyFirstKey noCache (claimsJson []) := by
  refine ⟨rfl,?_⟩
  rintro ⟨_,_,_,_,_,_,_,_,-,-,-,-,-,-,-,-,-,-,⟨exp,hexp,-⟩,-⟩
  exact nomatch hexp

end Sound
end JustMail.Accounts
