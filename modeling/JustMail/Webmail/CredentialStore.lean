import JustMail.Foundation.CodeUnits
import JustMail.Foundation.KeyedTable
import JustMail.Foundation.Keyspace

/-! `WebmailCredentialStore`: the sealed passwords of unlocked mailboxes with a sliding
expiry, kept in Redis or in rows of the `settings` table. -/
namespace JustMail.Webmail
open Foundation

def isUuidUnit (c : CodeUnit) : Bool := (48 ≤ c && c ≤ 57) || (97 ≤ c && c ≤ 102) || (65 ≤ c && c ≤ 70) || c == unit '-'

/-- Session and mailbox ids. Of their form only the length and the alphabet matter. -/
structure UuidText where
  text : JsString
  length : text.length = 36
  units : ∀ c ∈ text, isUuidUnit c = true
  deriving DecidableEq

def credKey (sessionId mailboxId : JsString) : JsString := js "webmail:cred:" ++ sessionId ++ js ":" ++ mailboxId
def idxKey (sessionId : JsString) : JsString := js "webmail:cred:idx:" ++ sessionId

def settingsKey (sessionId mailboxId : JsString) : JsString := js "webmail.session:" ++ sessionId ++ js "." ++ mailboxId
def settingsPrefix (sessionId : JsString) : JsString := js "webmail.session:" ++ sessionId ++ js "."

inductive LikeToken where
  | anyString
  | anyUnit
  | exact (c : CodeUnit)
  deriving DecidableEq

def LikeToken.ofUnit (c : CodeUnit) : LikeToken :=
  if c = unit '%' then .anyString else if c = unit '_' then .anyUnit else .exact c

/-- A pattern of LIKE taken apart; the flag tells that a `\` came before. -/
def likeTokens : Bool → JsString → List LikeToken
  | _, [] => []
  | true, c :: pattern => .exact c :: likeTokens false pattern
  | false, c :: pattern => if c = unit '\\' then likeTokens true pattern else .ofUnit c :: likeTokens false pattern

def matchTokens : List LikeToken → JsString → Bool
  | [], text => text.isEmpty
  | .anyString :: tokens, text => text.tails.any fun rest => matchTokens tokens rest
  | .anyUnit :: tokens, _ :: rest => matchTokens tokens rest
  | .exact c :: tokens, t :: rest => c = t && matchTokens tokens rest
  | _ :: _, [] => false

/-- `text LIKE pattern`. -/
def like (pattern text : JsString) : Bool := matchTokens (likeTokens false pattern) text

/-- `seal` and `open` of the secretbox, AES-256-GCM under the platform key. Of the cipher
only that it decrypts what it encrypted is known. -/
structure Secretbox (ν : Type) where
  sealSecret : ν → JsString → JsString
  openSealed : JsString → JsString
  open_seal : ∀ nonce plaintext, openSealed (sealSecret nonce plaintext) = plaintext

structure CachedCreds where
  address : JsString
  password : JsString
  deriving DecidableEq

inductive StoreCall where
  | store (sessionId mailboxId : UuidText) (address password : JsString)
  | get (sessionId mailboxId : UuidText)
  | remove (sessionId mailboxId : UuidText)
  | purgeSession (sessionId : UuidText)
  | sweepExpired

/-- A call at a whole second, with the random bytes that `seal` draws in each backend. -/
structure TimedCall (ν : Type) where
  time : Nat
  call : StoreCall
  redisNonce : ν
  settingsNonce : ν

/-- What a call returns. Only `get` has a result of interest. -/
inductive StoreReply where
  | done
  | creds (result : Option CachedCreds)
  | exception
  deriving DecidableEq

section Redis
variable (ttl : Nat)

structure RedisPayload where
  address : JsString
  sealed : JsString

abbrev Redis := Keyspace JsString (Stored RedisPayload JsString)

namespace Redis
variable (r : Redis) (now : Nat)

def store (sessionId mailboxId address sealed : JsString) : Redis :=
  ((Keyspace.setEx r now (credKey sessionId mailboxId) (.string ⟨address,sealed⟩) ttl).sadd now (idxKey sessionId)
    mailboxId).expire now (idxKey sessionId) ttl

def get (openSealed : JsString → JsString) (sessionId mailboxId : JsString) : Redis × StoreReply :=
  match Keyspace.get r now (credKey sessionId mailboxId) with
  | none => (r,.exception)
  | some none => (r,.creds none)
  | some (some payload) =>
    ((Keyspace.expire r now (credKey sessionId mailboxId) ttl).expire now (idxKey sessionId) ttl,
      .creds (some ⟨payload.address,openSealed payload.sealed⟩))

def remove (sessionId mailboxId : JsString) : Redis :=
  (Keyspace.del r [credKey sessionId mailboxId]).srem now (idxKey sessionId) mailboxId

def purgeSession (sessionId : JsString) : Redis × StoreReply :=
  match Keyspace.smembers r now (idxKey sessionId) with
  | none => (r,.exception)
  | some ids => (Keyspace.del r (ids.map (credKey sessionId) ++ [idxKey sessionId]),.done)

end Redis

variable {ν : Type} (box : Secretbox ν)

def redisStep (r : Redis) (c : TimedCall ν) : Redis × StoreReply :=
  match c.call with
  | .store sessionId mailboxId address password =>
    (Redis.store ttl r c.time sessionId.text mailboxId.text address (box.sealSecret c.redisNonce password),.done)
  | .get sessionId mailboxId => Redis.get ttl r c.time box.openSealed sessionId.text mailboxId.text
  | .remove sessionId mailboxId => (Redis.remove r c.time sessionId.text mailboxId.text,.done)
  | .purgeSession sessionId => Redis.purgeSession r c.time sessionId.text
  | .sweepExpired => (r,.done)

end Redis

section Settings
variable (ttl : Nat)

structure StoredValue where
  address : JsString
  sealed : JsString
  expiresAt : Nat

structure SettingsRow where
  key : JsString
  value : StoredValue

def SettingsRow.slide (expiresAt : Nat) (row : SettingsRow) : SettingsRow :=
  { row with value := { row.value with expiresAt := expiresAt } }

theorem SettingsRow.slide_key (expiresAt : Nat) (row : SettingsRow) : (row.slide expiresAt).key = row.key := rfl

abbrev Settings := Table SettingsRow.key

namespace Settings
variable (t : Settings) (now : Nat)

def store (sessionId mailboxId address sealed : JsString) : Settings :=
  Table.upsert t ⟨settingsKey sessionId mailboxId,⟨address,sealed,now + ttl⟩⟩

def remove (sessionId mailboxId : JsString) : Settings :=
  Table.deleteWhere t fun row => row.key = settingsKey sessionId mailboxId

def get (openSealed : JsString → JsString) (sessionId mailboxId : JsString) : Settings × StoreReply :=
  match Table.lookup t (settingsKey sessionId mailboxId) with
  | none => (t,.creds none)
  | some row =>
    if row.value.expiresAt ≤ now then (remove t sessionId mailboxId,.creds none)
    else
      (Table.updateWhere t (fun row => row.key = settingsKey sessionId mailboxId) (SettingsRow.slide (now + ttl))
        (SettingsRow.slide_key (now + ttl)),.creds (some ⟨row.value.address,openSealed row.value.sealed⟩))

def purgeSession (sessionId : JsString) : Settings :=
  Table.deleteWhere t fun row => like (settingsPrefix sessionId ++ js "%") row.key

def sweepExpired : Settings :=
  Table.deleteWhere t fun row => like (js "webmail.session:%") row.key && row.value.expiresAt ≤ now

end Settings

variable {ν : Type} (box : Secretbox ν)

def settingsStep (t : Settings) (c : TimedCall ν) : Settings × StoreReply :=
  match c.call with
  | .store sessionId mailboxId address password =>
    (Settings.store ttl t c.time sessionId.text mailboxId.text address (box.sealSecret c.settingsNonce password),.done)
  | .get sessionId mailboxId => Settings.get ttl t c.time box.openSealed sessionId.text mailboxId.text
  | .remove sessionId mailboxId => (Settings.remove t sessionId.text mailboxId.text,.done)
  | .purgeSession sessionId => (Settings.purgeSession t sessionId.text,.done)
  | .sweepExpired => (Settings.sweepExpired t c.time,.done)

end Settings
end JustMail.Webmail
