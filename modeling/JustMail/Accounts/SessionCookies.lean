import JustMail.Accounts.Directory
import JustMail.Foundation.Base64
import JustMail.Foundation.CodeUnits
import JustMail.Foundation.Sequences
import JustMail.Foundation.UriComponent

/-! `SessionGuard` (`session.guard.ts`) over the cookies of `session-cookie.ts`: the values of
the app's own cookie are tried one after the other. -/
namespace JustMail.Accounts
open Foundation

inductive AppSurface where
  | admin
  | webmail
  deriving DecidableEq

def ADMIN_SESSION_COOKIE : JsString := js "jm_admin_session"
def WEBMAIL_SESSION_COOKIE : JsString := js "jm_webmail_session"

def cookieName : AppSurface → JsString
  | .webmail => WEBMAIL_SESSION_COOKIE
  | .admin => ADMIN_SESSION_COOKIE

/-- What a request has for the guard: what cookie-parser exposes, and the headers. -/
structure GuardRequest where
  cookies : JsString → Option JsString
  cookie : Option JsString
  xJmApp : Option JsString
  origin : Option JsString
  referer : Option JsString
  authorization : Option JsString

/-- `JM_WEBMAIL_HOST`, and `new URL(text).hostname`, which is nothing where it throws. -/
structure Hosts where
  webmailHost : Option JsString
  hostname : JsString → Option JsString

def appFromHost (hosts : Hosts) (host : JsString) : AppSurface :=
  if host ≠ [] ∧ hosts.webmailHost = some host then .webmail else .admin

def appFromRequest (cm : CaseMapping) (hosts : Hosts) (req : GuardRequest) : AppSurface :=
  let header := cm.toLowerCase (req.xJmApp.getD [])
  if header = js "webmail" then .webmail
  else if header = js "admin" then .admin
  else
    match hosts.hostname ((req.origin.or req.referer).getD []) with
    | some host => appFromHost hosts host
    | none => .admin

def MAX_SESSION_TOKENS : Nat := 5

/-- The raw values of the cookies of the name, in the order of the header. -/
def cookieValues (name raw : JsString) : List JsString :=
  (raw.splitOn (unit ';')).filterMap fun part =>
    (cut (unit '=') part).bind fun p => if trim p.1 = name then some (trim p.2) else none

/-- `raw.length >= 2 && raw.startsWith('"') && raw.endsWith('"') ? raw.slice(1, -1) : raw`. -/
def unquote (raw : JsString) : JsString :=
  if 2 ≤ raw.length ∧ raw.head? = some (unit '"') ∧ raw.getLast? = some (unit '"') then raw.tail.dropLast else raw

def decodeCookieValue (raw : JsString) : JsString := (decodeURIComponent (unquote raw)).getD (unquote raw)

/-- The decoded values that are not empty. -/
def headerTokens (name raw : JsString) : List JsString := ((cookieValues name raw).map decodeCookieValue).filter (· ≠ [])

/-- `[...new Set(tokens)].slice(0, MAX_SESSION_TOKENS)` of all tokens for the cookie. -/
def sessionTokens (name : JsString) (req : GuardRequest) : List JsString :=
  let parsed := (req.cookies name).filter (· ≠ [])
  (parsed.toList ++ headerTokens name (req.cookie.getD [])).eraseDups.take MAX_SESSION_TOKENS

section Guard

structure GuardError where
  status : Nat
  title : JsString
  deriving DecidableEq

structure ApiKeyPrincipal where
  keyId : JsString
  orgId : JsString
  scopes : List JsString
  deriving DecidableEq

/-- What stands for the key as a principal. -/
structure KeyIdentity where
  userId : JsString
  sessionId : JsString
  email : JsString
  name : JsString
  deriving DecidableEq

def ApiKeyPrincipal.identity (key : ApiKeyPrincipal) : KeyIdentity where
  userId := key.keyId
  sessionId := key.keyId
  email := js "apikey:" ++ key.keyId
  name := js "API key " ++ key.keyId.take 8

/-- `req.principal`, with `req.apiKey` where there is one. -/
inductive Caller where
  | session (principal : SessionPrincipal)
  | apiKey (key : ApiKeyPrincipal) (principal : KeyIdentity)
  deriving DecidableEq

def isLineTerminator (c : CodeUnit) : Bool := c == 10 || c == 13 || c == 0x2028 || c == 0x2029

/-- `/^Bearer\s+(.+)$/i`, the group trimmed. Of white space alone the group is the last unit. -/
def extractBearer (authorization : Option JsString) : Option JsString :=
  (afterLiteral (js "bearer") (authorization.getD [])).bind fun rest =>
    let blanks := rest.takeWhile isSpace
    let token := rest.dropWhile isSpace
    if blanks = [] then none
    else if token ≠ [] then if token.any isLineTerminator then none else some (trim token)
    else if 2 ≤ blanks.length ∧ blanks.getLast?.any isLineTerminator = false then some [] else none

/-- What came of a request, and the tokens that were looked up for it. -/
structure GuardOutcome where
  lookups : List JsString
  result : Except GuardError Caller

def tryTokens {π : Type} (resolve : JsString → Option π) : List JsString → List JsString × Option π
  | [] => ([],none)
  | token :: tokens =>
    match resolve token with
    | some principal => ([token],some principal)
    | none => (token :: (tryTokens resolve tokens).1,(tryTokens resolve tokens).2)

variable (cm : CaseMapping) (hosts : Hosts) (resolve : JsString → Option SessionPrincipal)
  (resolveKey : JsString → Except GuardError ApiKeyPrincipal)

/-- `canActivate`, with `resolveSession` and the `resolve` of the API keys. -/
def canActivate (req : GuardRequest) : GuardOutcome :=
  let tried := tryTokens resolve (sessionTokens (cookieName (appFromRequest cm hosts req)) req)
  match tried.2 with
  | some principal => ⟨tried.1,.ok (.session principal)⟩
  | none =>
    match (extractBearer req.authorization).filter (· ≠ []) with
    | some bearer => ⟨tried.1,(resolveKey bearer).map fun key => .apiKey key key.identity⟩
    | none => ⟨tried.1,.error ⟨401,js "Not authenticated"⟩⟩

end Guard

section Trying
variable {π : Type} (resolve : JsString → Option π)

/-- The loop stops at the first token that resolves. -/
theorem tryTokens_result (tokens : List JsString) :
    (tryTokens resolve tokens).2 = (tokens.find? fun token => (resolve token).isSome).bind resolve := by
  induction tokens with
  | nil => rfl
  | cons token tokens ih =>
    rw [tryTokens]
    cases hresolve : resolve token with
    | some principal => simp [hresolve]
    | none => simp [hresolve,ih]

theorem tryTokens_lookups (tokens : List JsString) : (tryTokens resolve tokens).1 <+: tokens := by
  induction tokens with
  | nil => exact List.nil_prefix
  | cons token tokens ih =>
    rw [tryTokens]
    cases resolve token with
    | some principal => exact List.prefix_append [token] tokens
    | none => exact List.cons_prefix_cons.mpr ⟨rfl,ih⟩

end Trying

section Values
variable {name raw : JsString} {req : GuardRequest}

theorem cookieName_injective : Function.Injective cookieName := by
  intro app app' h
  cases app with
  | admin =>
    cases app' with
    | admin => rfl
    | webmail => exact absurd h (by decide +kernel)
  | webmail =>
    cases app' with
    | admin => exact absurd h (by decide +kernel)
    | webmail => rfl

theorem mem_cookieValues {v : JsString} : v ∈ cookieValues name raw ↔
    ∃ part ∈ raw.splitOn (unit ';'), ∃ key value, cut (unit '=') part = some (key,value) ∧ trim key = name ∧ trim value = v := by
  simp only [cookieValues,List.mem_filterMap,Option.bind_eq_some_iff,Option.ite_none_right_eq_some,Option.some.injEq,Prod.exists]

theorem mem_headerTokens {token : JsString} : token ∈ headerTokens name raw ↔
    (∃ v ∈ cookieValues name raw, decodeCookieValue v = token) ∧ token ≠ [] := by
  rw [headerTokens,List.mem_filter,List.mem_map,decide_eq_true_iff]

theorem decodeCookieValue_nil : decodeCookieValue [] = [] := rfl

/-- There are no more distinct tokens than distinct values as they are written. -/
theorem card_headerTokens_le (name raw : JsString) :
    (headerTokens name raw).toFinset.card ≤ ((cookieValues name raw).filter (· ≠ [])).toFinset.card := by
  have hsub : (headerTokens name raw).toFinset ⊆ ((cookieValues name raw).filter (· ≠ [])).toFinset.image decodeCookieValue := by
    intro token htoken
    obtain ⟨⟨v,hv,rfl⟩,hne⟩ := mem_headerTokens.mp (List.mem_toFinset.mp htoken)
    refine Finset.mem_image.mpr ⟨v,List.mem_toFinset.mpr (List.mem_filter.mpr ⟨hv,decide_eq_true ?_⟩),rfl⟩
    rintro rfl
    exact hne decodeCookieValue_nil
  exact (Finset.card_le_card hsub).trans Finset.card_image_le

/-- What cookie-parser exposes is the first value, decoded. -/
def ParsedFirst (name : JsString) (req : GuardRequest) : Prop :=
  req.cookies name = (cookieValues name (req.cookie.getD [])).head?.map decodeCookieValue

/-- The tokens in order: the value of cookie-parser, then those of the header. -/
def tokensInOrder (name : JsString) (req : GuardRequest) : List JsString :=
  ((req.cookies name).filter (· ≠ [])).toList ++ headerTokens name (req.cookie.getD [])

/-- The value that cookie-parser exposes is one of the header's. -/
theorem eraseDups_tokensInOrder (h : ParsedFirst name req) :
    (tokensInOrder name req).eraseDups = (headerTokens name (req.cookie.getD [])).eraseDups := by
  rw [tokensInOrder,h]
  cases hvalues : cookieValues name (req.cookie.getD []) with
  | nil => simp [headerTokens,hvalues]
  | cons v values =>
    by_cases hv : decodeCookieValue v = []
    · rw [List.head?_cons,Option.map_some,Option.filter_some,if_neg (by simpa using hv),Option.toList_none,List.nil_append]
    · have htokens : headerTokens name (req.cookie.getD []) =
          decodeCookieValue v :: (values.map decodeCookieValue).filter (· ≠ []) := by simp [headerTokens,hvalues,hv]
      rw [htokens,List.head?_cons,Option.map_some,Option.filter_some,if_pos (by simpa using hv),Option.toList_some,List.singleton_append,
        eraseDups_cons_cons]

/-- Up to five distinct tokens are all tried. -/
theorem sessionTokens_eq (h : ParsedFirst name req) (hfew : (headerTokens name (req.cookie.getD [])).toFinset.card ≤ 5) :
    sessionTokens name req = (tokensInOrder name req).eraseDups := by
  change (tokensInOrder name req).eraseDups.take MAX_SESSION_TOKENS = _
  apply List.take_of_length_le
  rw [eraseDups_tokensInOrder h,length_eraseDups]
  exact hfew

theorem mem_sessionTokens (h : ParsedFirst name req) {token : JsString} (htoken : token ∈ sessionTokens name req) :
    token ∈ headerTokens name (req.cookie.getD []) := by
  have hmem : token ∈ (tokensInOrder name req).eraseDups := List.mem_of_mem_take htoken
  rw [eraseDups_tokensInOrder h] at hmem
  exact List.mem_eraseDups.mp hmem

end Values

section Issued
variable {token v : JsString}

/-- `randomBytes(32).toString("base64url")`. -/
def IssuedToken (token : JsString) : Prop := ∃ bytes : List UInt8, bytes.length = 32 ∧ token = base64url bytes

/-- The values that stand for a token: as it is, with units of it escaped, and this in double quotes. -/
inductive Presents (token : JsString) : JsString → Prop
  | raw : Presents token token
  | encoded {v : JsString} : PercentForm v token → Presents token v
  | quoted {v : JsString} : PercentForm v token → Presents token (unit '"' :: (v ++ [unit '"']))

theorem IssuedToken.units (h : IssuedToken token) {c : CodeUnit} (hc : c ∈ token) : c ≠ PERCENT ∧ c ≠ unit '"' := by
  have hdigits : ∀ n < 64, base64Digit (unit '-') (unit '_') n ≠ PERCENT ∧ base64Digit (unit '-') (unit '_') n ≠ unit '"' := by
    decide
  obtain ⟨bytes,-,rfl⟩ := h
  obtain ⟨n,hn,rfl⟩ := mem_base64Units hc
  exact hdigits n hn

theorem IssuedToken.ne_nil (h : IssuedToken token) : token ≠ [] := by
  obtain ⟨bytes,hlength,rfl⟩ := h
  have hunits : (base64url bytes).length = 43 := by rw [base64url,base64Units_length,hlength]
  exact List.ne_nil_of_length_pos (by omega)

theorem IssuedToken.percentForm (h : IssuedToken token) : PercentForm token token :=
  percentForm_self fun hmem => (h.units hmem).1 rfl

theorem unquote_of_head (h : v.head? ≠ some (unit '"')) : unquote v = v := by
  rw [unquote,if_neg]
  rintro ⟨-,hhead,-⟩
  exact h hhead

theorem unquote_quoted (v : JsString) : unquote (unit '"' :: (v ++ [unit '"'])) = v := by
  have hlast : (unit '"' :: (v ++ [unit '"'])).getLast? = some (unit '"') := List.getLast?_concat (l := unit '"' :: v)
  rw [unquote,if_pos ⟨by simp,rfl,hlast⟩,List.tail_cons,List.dropLast_concat]

/-- An issued token has no unit that decoding could take for something else. -/
theorem decodeCookieValue_presents (htoken : IssuedToken token) (h : Presents token v) : decodeCookieValue v = token := by
  have hform : ∀ {w : JsString}, PercentForm w token → unquote w = w := by
    intro w hw
    apply unquote_of_head
    intro hhead
    rcases hw.head _ hhead with hquote | hquote
    · exact absurd hquote (by decide)
    · exact (htoken.units (List.mem_of_mem_head? hquote)).2 rfl
  cases h with
  | raw => rw [decodeCookieValue,hform htoken.percentForm,decodeURIComponent_percentForm htoken.percentForm,Option.getD_some]
  | encoded hv => rw [decodeCookieValue,hform hv,decodeURIComponent_percentForm hv,Option.getD_some]
  | quoted hv => rw [decodeCookieValue,unquote_quoted,decodeURIComponent_percentForm hv,Option.getD_some]

variable {crypto : Crypto} {db db' : AccountDb} {ttl now userId : Nat} {mailboxId : Option Nat}

def SessionsIssued (crypto : Crypto) (db : AccountDb) : Prop :=
  ∀ row ∈ db.sessions.rows, ∃ token, IssuedToken token ∧ row.tokenHash = crypto.sha256 token

theorem resolveSession_issued (hsha : Function.Injective crypto.sha256) (h : SessionsIssued crypto db)
    (hresolve : (resolveSession crypto db now token).isSome = true) : IssuedToken token := by
  obtain ⟨principal,hprincipal⟩ := Option.isSome_iff_exists.mp hresolve
  obtain ⟨row,hrow,-⟩ := Option.bind_eq_some_iff.mp hprincipal
  obtain ⟨hmem,hkey⟩ := Table.lookup_eq_some.mp hrow
  obtain ⟨issued,hissued,hhash⟩ := h row hmem
  rwa [← hsha (hhash.symm.trans hkey)]

end Issued

section Activation
variable (cm : CaseMapping) (hosts : Hosts) (resolve : JsString → Option SessionPrincipal)
  (resolveKey : JsString → Except GuardError ApiKeyPrincipal) (req : GuardRequest)

theorem canActivate_lookups : (canActivate cm hosts resolve resolveKey req).lookups =
    (tryTokens resolve (sessionTokens (cookieName (appFromRequest cm hosts req)) req)).1 := by
  rw [canActivate]
  split
  · rfl
  · split <;> rfl

theorem canActivate_session {principal : SessionPrincipal}
    (h : (tryTokens resolve (sessionTokens (cookieName (appFromRequest cm hosts req)) req)).2 = some principal) :
    (canActivate cm hosts resolve resolveKey req).result = .ok (.session principal) := by
  rw [canActivate]
  simp only [h]

/-- No request makes it look up more tokens than that. -/
theorem canActivate_lookups_le : (canActivate cm hosts resolve resolveKey req).lookups.length ≤ 5 := by
  rw [canActivate_lookups]
  exact (tryTokens_lookups resolve _).length_le.trans (List.length_take_le _ _)

end Activation

section Unmasked
variable (crypto : Crypto) (cm : CaseMapping) (hosts : Hosts) (resolveKey : JsString → Except GuardError ApiKeyPrincipal)
  (db : AccountDb) (now : Nat) (req : GuardRequest)

/-- A text is the value of a cookie of the app, and of no other app. -/
def OwnCookie (app : AppSurface) (raw token : JsString) : Prop :=
  ∃ part ∈ raw.splitOn (unit ';'), ∃ key value, cut (unit '=') part = some (key,value) ∧ trim key = cookieName app ∧
    (∀ other ≠ app, trim key ≠ cookieName other) ∧ decodeCookieValue (trim value) = token

theorem ownCookie_of_mem {app : AppSurface} {raw token : JsString} (h : token ∈ headerTokens (cookieName app) raw) :
    OwnCookie app raw token := by
  obtain ⟨⟨v,hv,rfl⟩,-⟩ := mem_headerTokens.mp h
  obtain ⟨part,hpart,key,value,hcut,hkey,rfl⟩ := mem_cookieValues.mp hv
  refine ⟨part,hpart,key,value,hcut,hkey,fun other hother hname => hother ?_,rfl⟩
  exact cookieName_injective (hname.symm.trans hkey)

/-- At most five values of the cookie, counted as they are written or decoded. -/
def FewValues (name raw : JsString) : Prop :=
  ((cookieValues name raw).filter (· ≠ [])).toFinset.card ≤ 5 ∨ (headerTokens name raw).toFinset.card ≤ 5

theorem FewValues.tokens {name raw : JsString} (h : FewValues name raw) : (headerTokens name raw).toFinset.card ≤ 5 :=
  h.elim (card_headerTokens_le name raw).trans id

theorem session_never_masked (hsha : Function.Injective crypto.sha256) (hissued : SessionsIssued crypto db)
    (hparsed : ParsedFirst (cookieName (appFromRequest cm hosts req)) req) :
    (canActivate cm hosts (resolveSession crypto db now) resolveKey req).lookups.length ≤ 5 ∧
    (∀ token ∈ (canActivate cm hosts (resolveSession crypto db now) resolveKey req).lookups,
      OwnCookie (appFromRequest cm hosts req) (req.cookie.getD []) token) ∧
    (FewValues (cookieName (appFromRequest cm hosts req)) (req.cookie.getD []) →
      (∃ v ∈ cookieValues (cookieName (appFromRequest cm hosts req)) (req.cookie.getD []), ∃ token,
        Presents token v ∧ (resolveSession crypto db now token).isSome = true) →
      ∃ token principal,
        (tokensInOrder (cookieName (appFromRequest cm hosts req)) req).find?
          (fun token => (resolveSession crypto db now token).isSome) = some token ∧
        resolveSession crypto db now token = some principal ∧
        (canActivate cm hosts (resolveSession crypto db now) resolveKey req).result = .ok (.session principal)) := by
  refine ⟨canActivate_lookups_le cm hosts _ resolveKey req,fun token htoken => ?_,?_⟩
  · rw [canActivate_lookups] at htoken
    exact ownCookie_of_mem (mem_sessionTokens hparsed ((tryTokens_lookups _ _).subset htoken))
  · rintro hfew ⟨v,hv,live,hpresents,hlive⟩
    have htoken : IssuedToken live := resolveSession_issued hsha hissued hlive
    have hmem : live ∈ tokensInOrder (cookieName (appFromRequest cm hosts req)) req :=
      List.mem_append_right _ (mem_headerTokens.mpr ⟨⟨v,hv,decodeCookieValue_presents htoken hpresents⟩,htoken.ne_nil⟩)
    have hsome : ((tokensInOrder (cookieName (appFromRequest cm hosts req)) req).find?
        fun token => (resolveSession crypto db now token).isSome).isSome = true := List.find?_isSome.mpr ⟨live,hmem,hlive⟩
    obtain ⟨first,hfirst⟩ := Option.isSome_iff_exists.mp hsome
    have haccepted : (resolveSession crypto db now first).isSome = true :=
      List.find?_some (p := fun token => (resolveSession crypto db now token).isSome) hfirst
    obtain ⟨principal,hprincipal⟩ := Option.isSome_iff_exists.mp haccepted
    refine ⟨first,principal,hfirst,hprincipal,canActivate_session cm hosts _ resolveKey req ?_⟩
    rw [tryTokens_result,sessionTokens_eq hparsed hfew.tokens,find?_eraseDups,hfirst,Option.bind_some,hprincipal]

def plainToken : JsString := base64url (List.replicate 32 0)

def oneSession : AccountDb := { soleAdmin with sessions := ⟨[⟨plainToken,1,100,none⟩],by decide⟩ }

/-- A stale value before the live one, which is quoted and has a unit escaped. -/
def staleFirst : GuardRequest where
  cookies name := if name = ADMIN_SESSION_COOKIE then some (js "stale") else none
  cookie := some (js "jm_webmail_session=other; jm_admin_session=stale; jm_admin_session=\"%41" ++ plainToken.tail ++ js "\"")
  xJmApp := some (js "Admin")
  origin := none
  referer := none
  authorization := none

theorem session_never_masked_stale : ∃ principal, (canActivate asciiCase ⟨none,fun _ => none⟩ (resolveSession plainCrypto oneSession 5)
    (fun _ => .error ⟨401,js "Invalid API key"⟩) staleFirst).result = .ok (.session principal) := by
  have hissued : SessionsIssued plainCrypto oneSession := by
    intro row hrow
    rw [List.mem_singleton.mp hrow]
    exact ⟨plainToken,⟨_,by decide,rfl⟩,rfl⟩
  have hform : PercentForm (PERCENT :: unit '4' :: unit '1' :: plainToken.tail) ((0x41 : UInt8).toUInt16 :: plainToken.tail) :=
    .escaped (by decide) (by decide) (percentForm_self (by decide))
  have htoken : (0x41 : UInt8).toUInt16 :: plainToken.tail = plainToken := by decide
  rw [htoken] at hform
  obtain ⟨-,-,h⟩ := session_never_masked plainCrypto asciiCase ⟨none,fun _ => none⟩ (fun _ => .error ⟨401,js "Invalid API key"⟩)
    oneSession 5 staleFirst (fun _ _ h => h) hissued (by unfold ParsedFirst; decide +kernel)
  obtain ⟨_,principal,-,-,hresult⟩ := h (.inl (by decide +kernel)) ⟨_,by decide +kernel,plainToken,.quoted hform,by decide +kernel⟩
  exact ⟨principal,hresult⟩

end Unmasked

end JustMail.Accounts
