import JustMail.Foundation.Base64
import JustMail.Foundation.Json
import JustMail.Realtime.Revocation

/-! The tickets of the realtime gateway: `wsTicket` of the auth service mints them and
`verifyTicket` reads one from the URL of a handshake. -/
namespace JustMail.Realtime
open Foundation JsonText Webmail

/-- The special-query percent-encode set, byte by byte. -/
def inQuerySet (b : UInt8) : Bool := b < 33 || 126 < b || b == 34 || b == 35 || b == 39 || b == 60 || b == 62

def hexByte (n : Nat) : UInt8 := if n < 10 then (48 + n).toUInt8 else (55 + n).toUInt8

/-- The query that `new URL` makes of what stands behind `/v1/ws?`: without white space at the end,
tabs, line breaks and the fragment, the rest in ASCII. -/
def urlQuery (query : JsString) : List UInt8 :=
  let s := (query.rdropWhile (· ≤ 32)).filter fun c => c ≠ 9 ∧ c ≠ 10 ∧ c ≠ 13
  (utf8Bytes (s.takeWhile (· ≠ unit '#'))).flatMap fun b =>
    if inQuerySet b then [37,hexByte (b.toNat / 16),hexByte (b.toNat % 16)] else [b]

def percentByte : List UInt8 → Option UInt8
  | x :: y :: _ => (hexVal x.toUInt16).bind fun m => (hexVal y.toUInt16).map fun n => (16 * m + n).toUInt8
  | _ => none

/-- `skip` digits have been used. -/
def percentDecode : Nat → List UInt8 → List UInt8
  | _,[] => []
  | skip+1,_ :: s => percentDecode skip s
  | 0,b :: s =>
    match if b = 37 then percentByte s else none with
    | some c => c :: percentDecode 2 s
    | none => b :: percentDecode 0 s

def formText (bytes : List UInt8) : JsString := decodeLossy (percentDecode 0 (bytes.map fun b => if b = 43 then 32 else b))

/-- The `application/x-www-form-urlencoded` parser. -/
def formPairs (bytes : List UInt8) : List (JsString × JsString) :=
  ((bytes.splitOn 38).filter (· ≠ [])).map fun p => (formText (p.takeWhile (· ≠ 61)),formText ((p.dropWhile (· ≠ 61)).drop 1))

/-- `url.searchParams.get(name)`. -/
def searchParam (name query : JsString) : Option JsString :=
  ((formPairs (urlQuery query)).find? fun p => p.1 = name).map (·.2)

section Model

/-- HMAC-SHA256 under the key of the platform, and `ToNumber` of a value that is neither a number, a
boolean nor null. -/
structure TicketRuntime where
  hmac (key message : List UInt8) : List UInt8
  hmac_length (key message : List UInt8) : (hmac key message).length = 32
  encryptionKey : JsString
  toNumber : Json → Option ℚ

variable (rt : TicketRuntime)

/-- `createHmac("sha256", config.ENCRYPTION_KEY).update(text).digest("base64url")`. -/
def TicketRuntime.sign (text : JsString) : JsString := base64url (rt.hmac (utf8Bytes rt.encryptionKey) (utf8Bytes text))

def TicketPayload.json (p : TicketPayload) : Json :=
  .object [(js "sessionId",.string p.sessionId.text),(js "userId",.string p.userId),
    (js "orgIds",.array (p.orgIds.map .string)),(js "exp",.number (natural p.exp))]

def TicketPayload.base64 (p : TicketPayload) : JsString := base64url (utf8Bytes (stringify p.json))

/-- The payload for a session, from the rows of its user's memberships; `now` is in milliseconds. -/
def wsTicketPayload (sessionId : UuidText) (userId : JsString) (rows : List JsString) (now : Nat) : TicketPayload :=
  ⟨sessionId,userId,rows,now / 1000 + 60⟩

def TicketRuntime.ticket (p : TicketPayload) : JsString := p.base64 ++ unit '.' :: rt.sign p.base64

inductive TicketError
  | timingSafeEqualLength

def timingSafeEqual (a b : List UInt8) : Except TicketError Bool :=
  if a.length ≠ b.length then .error .timingSafeEqualLength else .ok (a == b)

/-- The second condition is evaluated only where the first one is false. -/
def TicketRuntime.signed (payloadB64 sig : JsString) : Except TicketError Bool :=
  let expected := rt.sign payloadB64
  if expected.length ≠ sig.length then .ok false else timingSafeEqual (utf8Bytes expected) (utf8Bytes sig)

/-- `v < n` for what a property holds. -/
def TicketRuntime.below (v : Option Json) (n : Nat) : Bool :=
  match v with
  | none => false
  | some (.number m) => m.value < n
  | some .null => 0 < n
  | some (.bool b) => b.toNat < n
  | some v => (rt.toNumber v).any fun q => q < (n : ℚ)

/-- The guarded part: a text that is no JSON, or null, is caught. -/
def TicketRuntime.payloadOf (payloadB64 : JsString) (now : Nat) : Option Json :=
  match parse (decodeLossy ((bufferFromBase64 payloadB64).map (·.toUInt8))) with
  | none => none
  | some .null => none
  | some payload => if rt.below (payload.get? (js "exp")) (now / 1000) then none else some payload

def ticketParam (query : JsString) : Option JsString := searchParam (js "ticket") query

/-- `verifyTicket`, for the URL `/v1/ws?` and the query. -/
def TicketRuntime.verifyTicket (query : JsString) (now : Nat) : Except TicketError (Option Json) :=
  match ticketParam query with
  | none => .ok none
  | some raw =>
    if raw = [] then .ok none
    else match raw.splitOn (unit '.') with
      | [payloadB64,sig] =>
        if payloadB64 = [] ∨ sig = [] then .ok none
        else match rt.signed payloadB64 sig with
          | .error e => .error e
          | .ok false => .ok none
          | .ok true => .ok (rt.payloadOf payloadB64 now)
      | _ => .ok none

/-- Whether `!value` is false. -/
def truthy : Json → Bool
  | .null => false
  | .bool b => b
  | .number n => n.value ≠ 0
  | .string s => s ≠ []
  | _ => true

/-- What becomes of a connection. An error that nothing catches ends the process. -/
inductive Connection
  | crashed
  | closed (code : Nat) (reason : JsString)
  | opened (sessionId userId orgIds : Option Json)

/-- The handler of `connection`. -/
def TicketRuntime.onConnection (query : JsString) (now : Nat) : Connection :=
  match rt.verifyTicket query now with
  | .error _ => .crashed
  | .ok none => .closed 1008 (js "unauthorised")
  | .ok (some parsed) =>
    if truthy parsed then .opened (parsed.get? (js "sessionId")) (parsed.get? (js "userId")) (parsed.get? (js "orgIds"))
    else .closed 1008 (js "unauthorised")

/-- Nobody else can sign: a text that comes with its signature has been signed by `wsTicket`. -/
def TicketRuntime.Unforged (issued : List TicketPayload) (raw : Option JsString) : Prop :=
  ∀ text sig, raw = some (text ++ unit '.' :: sig) → sig = rt.sign text → ∃ p ∈ issued, utf8Bytes text = utf8Bytes p.base64

/-- The handshake ends, the process lives, and what comes out of a ticket is what went into it. -/
structure TicketRuntime.HandshakeSafe (issued : List TicketPayload) (query : JsString) (now : Nat) : Prop where
  returns : ∃ r, rt.verifyTicket query now = .ok r
  survives : rt.onConnection query now ≠ .crashed
  minted : ∀ payload, rt.verifyTicket query now = .ok (some payload) →
    ∃ p ∈ issued, ticketParam query = some (rt.ticket p) ∧ now / 1000 ≤ p.exp ∧ payload = p.json

/-- A signature of the right number of units that is not ASCII. -/
def WideSignature (raw : Option JsString) : Prop :=
  ∃ s payloadB64 sig, raw = some s ∧ s.splitOn (unit '.') = [payloadB64,sig] ∧ payloadB64 ≠ [] ∧ sig.length = 43 ∧
    ∃ c ∈ sig, 128 ≤ c

end Model
section Signatures
variable {rt : TicketRuntime} {text sig s t : JsString}

theorem sign_length (rt : TicketRuntime) (text : JsString) : (rt.sign text).length = 43 := by
  rw [TicketRuntime.sign,base64url,base64Units_length,rt.hmac_length]

theorem sign_ascii (rt : TicketRuntime) (text : JsString) : ∀ c ∈ rt.sign text, c < 128 := fun _ hc => (base64url_units hc).1

/-- The comparison of signatures of 43 units compares as many bytes only where both are ASCII. -/
theorem signed_ascii (hlen : sig.length = 43) (hsig : ∀ c ∈ sig, c < 128) :
    rt.signed text sig = .ok (decide (rt.sign text = sig)) := by
  have hbytes : (utf8Bytes (rt.sign text)).length = (utf8Bytes sig).length := by
    rw [(utf8Bytes_length _).2.mpr (sign_ascii rt text),(utf8Bytes_length _).2.mpr hsig,sign_length,hlen]
  rw [TicketRuntime.signed,if_neg (by simp [sign_length,hlen]),timingSafeEqual,if_neg (by simp [hbytes])]
  refine congrArg Except.ok (Bool.eq_iff_iff.mpr ?_)
  rw [beq_iff_eq,decide_eq_true_iff]
  exact ⟨fun h => utf8Bytes_injective_ascii hsig h,congrArg utf8Bytes⟩

theorem signed_wide (hlen : sig.length = 43) (hsig : ∃ c ∈ sig, 128 ≤ c) :
    rt.signed text sig = .error .timingSafeEqualLength := by
  have hbytes : (utf8Bytes (rt.sign text)).length ≠ (utf8Bytes sig).length := by
    rw [(utf8Bytes_length _).2.mpr (sign_ascii rt text),sign_length,← hlen]
    intro h
    obtain ⟨c,hc,hwide⟩ := hsig
    have hlt := (utf8Bytes_length sig).2.mp h.symm c hc
    exact absurd hwide (UInt16.not_le.mpr hlt)
  rw [TicketRuntime.signed,if_neg (by simp [sign_length,hlen]),timingSafeEqual,if_pos hbytes]

theorem signed_length (hlen : sig.length ≠ 43) : rt.signed text sig = .ok false := by
  rw [TicketRuntime.signed,if_pos (by rw [sign_length]; exact Ne.symm hlen)]

private theorem eq_of_splitOn (h : s.splitOn (unit '.') = [text,sig]) : s = text ++ unit '.' :: sig := by
  have hjoin : [unit '.'].intercalate (s.splitOn (unit '.')) = s := List.intercalate_splitOn (unit '.')
  rw [h] at hjoin
  rw [← hjoin]
  simp [List.intercalate]

end Signatures

section Payloads
variable {rt : TicketRuntime} {p : TicketPayload} {now : Nat}

theorem base64_ascii (p : TicketPayload) : ∀ c ∈ p.base64, c < 128 := fun _ hc => (base64url_units hc).1

/-- What was minted is read back. -/
theorem payloadOf_base64 (rt : TicketRuntime) (p : TicketPayload) (now : Nat) :
    rt.payloadOf p.base64 now = if p.exp < now / 1000 then none else some p.json := by
  have hbytes : (bufferFromBase64 p.base64).map (·.toUInt8) = utf8Bytes (stringify p.json) := by
    rw [TicketPayload.base64,bufferFromBase64_base64url,List.map_map]
    exact (List.map_congr_left fun b _ => UInt8.ofNat_toNat).trans (List.map_id _)
  have hparse : parse (decodeLossy ((bufferFromBase64 p.base64).map (·.toUInt8))) = some p.json := by
    rw [hbytes,decodeLossy_utf8Bytes_wellFormed (wellFormed_stringify _),parse_stringify]
  have hexp : p.json.get? (js "exp") = some (.number (natural p.exp)) := rfl
  rw [TicketRuntime.payloadOf,hparse]
  change (if rt.below (p.json.get? (js "exp")) (now / 1000) = true then none else some p.json) = _
  rw [hexp,TicketRuntime.below,natural_value]
  simp

end Payloads

section Handshake
variable {rt : TicketRuntime} {issued : List TicketPayload} {query : JsString} {now : Nat}

/-- A ticket in two parts that hold something is the only one whose signature is looked at. -/
private theorem verifyTicket_cases (rt : TicketRuntime) (query : JsString) (now : Nat) :
    rt.verifyTicket query now = .ok none ∧ ¬WideSignature (ticketParam query) ∨
    ∃ raw payloadB64 sig, ticketParam query = some raw ∧ raw.splitOn (unit '.') = [payloadB64,sig] ∧ payloadB64 ≠ [] ∧
      rt.verifyTicket query now = match rt.signed payloadB64 sig with
        | .error e => .error e
        | .ok false => .ok none
        | .ok true => .ok (rt.payloadOf payloadB64 now) := by
  rw [TicketRuntime.verifyTicket]
  cases hparam : ticketParam query with
  | none =>
    refine .inl ⟨rfl,?_⟩
    rintro ⟨s,_,_,hs,-⟩
    cases hs
  | some raw =>
    dsimp only
    by_cases hraw : raw = []
    · rw [if_pos hraw]
      refine .inl ⟨rfl,?_⟩
      rintro ⟨s,_,_,hs,hsplit,-⟩
      cases hs
      rw [hraw,List.splitOn_nil] at hsplit
      cases hsplit
    · rw [if_neg hraw]
      split
      · rename_i payloadB64 sig hsplit
        by_cases hempty : payloadB64 = [] ∨ sig = []
        · rw [if_pos hempty]
          refine .inl ⟨rfl,?_⟩
          rintro ⟨s,text,tag,hs,hparts,htext,hlen,-⟩
          cases hs
          rw [hsplit] at hparts
          obtain ⟨rfl,hrest⟩ := List.cons.inj hparts
          cases hrest
          rcases hempty with hempty | hempty
          · exact htext hempty
          · rw [hempty] at hlen
            cases hlen
        · rw [if_neg hempty]
          exact .inr ⟨raw,payloadB64,sig,rfl,hsplit,fun h => hempty (.inl h),rfl⟩
      · rename_i hother
        refine .inl ⟨rfl,?_⟩
        rintro ⟨s,text,tag,hs,hparts,-⟩
        cases hs
        exact hother text tag hparts

private theorem onConnection_crashed (h : rt.onConnection query now = .crashed) : ∃ e, rt.verifyTicket query now = .error e := by
  rw [TicketRuntime.onConnection] at h
  split at h
  · rename_i e he
    exact ⟨e,he⟩
  · cases h
  · split at h <;> cases h

private theorem verifyTicket_wide (h : WideSignature (ticketParam query)) :
    rt.verifyTicket query now = .error .timingSafeEqualLength := by
  rcases verifyTicket_cases rt query now with ⟨-,hnarrow⟩ | ⟨raw,text,sig,hparam,hsplit,-,hverify⟩
  · exact absurd h hnarrow
  · obtain ⟨s,payloadB64,tag,hs,hparts,-,hlen,hwide⟩ := h
    rw [hparam] at hs
    cases hs
    rw [hsplit] at hparts
    obtain ⟨rfl,hrest⟩ := List.cons.inj hparts
    cases hrest
    rw [hverify,signed_wide hlen hwide]

/-- A handshake is safe exactly when its ticket has no signature of 43 units that is not ASCII. -/
theorem handshakeSafe_iff (rt : TicketRuntime) (issued : List TicketPayload) (query : JsString) (now : Nat)
    (hunforged : rt.Unforged issued (ticketParam query)) :
    rt.HandshakeSafe issued query now ↔ ¬WideSignature (ticketParam query) := by
  rcases verifyTicket_cases rt query now with ⟨hnone,hnarrow⟩ | ⟨raw,text,sig,hparam,hsplit,htext,hverify⟩
  · refine ⟨fun _ => hnarrow,fun _ => ⟨⟨none,hnone⟩,fun hcrash => ?_,fun payload hpayload => ?_⟩⟩
    · obtain ⟨e,he⟩ := onConnection_crashed hcrash
      rw [hnone] at he
      cases he
    · rw [hnone] at hpayload
      cases hpayload
  constructor
  · intro hsafe hwide
    obtain ⟨r,hr⟩ := hsafe.returns
    rw [verifyTicket_wide hwide] at hr
    cases hr
  · intro hnarrow
    have hsigned : rt.signed text sig = .ok (decide (rt.sign text = sig)) := by
      by_cases hlen : sig.length = 43
      · refine signed_ascii hlen fun c hc => UInt16.not_le.mp fun hwide => hnarrow ?_
        exact ⟨raw,text,sig,hparam,hsplit,htext,hlen,c,hc,hwide⟩
      · rw [signed_length hlen,decide_eq_false]
        rintro rfl
        exact hlen (sign_length rt text)
    rw [hsigned] at hverify
    have hends : ∃ r, rt.verifyTicket query now = .ok r := by
      rw [hverify]
      split
      · rename_i he
        cases he
      · exact ⟨_,rfl⟩
      · exact ⟨_,rfl⟩
    refine ⟨hends,fun hcrash => ?_,fun payload hpayload => ?_⟩
    · obtain ⟨e,he⟩ := onConnection_crashed hcrash
      obtain ⟨r,hr⟩ := hends
      rw [hr] at he
      cases he
    · by_cases hsig : rt.sign text = sig
      · have hraw : raw = text ++ unit '.' :: sig := eq_of_splitOn hsplit
        obtain ⟨p,hp,hbytes⟩ := hunforged text sig (hparam.trans (congrArg some hraw)) hsig.symm
        obtain rfl := utf8Bytes_injective_ascii (base64_ascii p) hbytes
        rw [hverify,decide_eq_true hsig,payloadOf_base64] at hpayload
        have hlive : ¬p.exp < now / 1000 := by
          intro hexpired
          rw [if_pos hexpired] at hpayload
          cases hpayload
        rw [if_neg hlive] at hpayload
        refine ⟨p,hp,?_,Nat.le_of_not_lt hlive,?_⟩
        · rw [hparam,hraw,TicketRuntime.ticket,hsig]
        · exact (Option.some.inj (Except.ok.inj hpayload)).symm
      · rw [hverify,decide_eq_false hsig] at hpayload
        cases hpayload

/-- A ticket that was minted is taken until it expires. -/
theorem verifyTicket_ticket {p : TicketPayload} (hparam : ticketParam query = some (rt.ticket p)) (hlive : now / 1000 ≤ p.exp) :
    rt.verifyTicket query now = .ok (some p.json) := by
  have htext : unit '.' ∉ p.base64 := fun hmem => (base64url_units hmem).2 rfl
  have htag : unit '.' ∉ rt.sign p.base64 := fun hmem => (base64url_units hmem).2 rfl
  have hsplit : (rt.ticket p).splitOn (unit '.') = [p.base64,rt.sign p.base64] := by
    rw [TicketRuntime.ticket,List.splitOn_append_cons_self_of_not_mem htext,List.splitOn_eq_singleton htag]
  have hne : p.base64 ≠ [] := by
    intro hempty
    have hback := payloadOf_base64 rt p now
    rw [hempty,if_neg (Nat.not_lt.mpr hlive)] at hback
    cases hback
  have hsig : rt.sign p.base64 ≠ [] := fun h => by simpa [h] using sign_length rt p.base64
  rw [TicketRuntime.verifyTicket,hparam]
  dsimp only
  rw [if_neg (by simp [TicketRuntime.ticket]),hsplit]
  dsimp only
  rw [if_neg (not_or.mpr ⟨hne,hsig⟩),signed_ascii (sign_length rt _) (sign_ascii rt _),decide_eq_true rfl]
  dsimp only
  rw [payloadOf_base64,if_neg (Nat.not_lt.mpr hlive)]

/-- A socket is opened as the machine of the sessions opens it, from one of its tickets. -/
theorem onConnection_connect {w : SessionWorld} {sessionId userId orgIds : Option Json}
    (hunforged : rt.Unforged w.tickets (ticketParam query)) (h : rt.onConnection query w.now = .opened sessionId userId orgIds) :
    ∃ p, w.handle (.connect p) = { w with sockets := w.sockets ++ [⟨p.sessionId,p.userId,p.orgIds,[],w.now,true⟩] } ∧
      sessionId = some (.string p.sessionId.text) ∧ userId = some (.string p.userId) ∧
        orgIds = some (.array (p.orgIds.map .string)) := by
  have hnarrow : ¬WideSignature (ticketParam query) := by
    intro hwide
    rw [TicketRuntime.onConnection,verifyTicket_wide hwide] at h
    cases h
  have hsafe := (handshakeSafe_iff rt w.tickets query w.now hunforged).mpr hnarrow
  rw [TicketRuntime.onConnection] at h
  split at h
  · cases h
  · cases h
  · rename_i parsed hparsed
    obtain ⟨p,hp,-,hlive,rfl⟩ := hsafe.minted parsed hparsed
    rw [if_pos (show truthy p.json = true from rfl)] at h
    cases h
    exact ⟨p,if_pos ⟨hp,decide_eq_true hlive⟩,rfl,rfl,rfl⟩

/-- A runtime with the signature that the key gives to the payload below. -/
def sampleRuntime : TicketRuntime where
  hmac _ _ :=
    [102,191,238,41,174,165,182,153,226,95,248,35,21,197,200,151,221,182,204,115,186,17,100,185,76,35,61,60,218,147,83,133]
  hmac_length _ _ := rfl
  encryptionKey := js "key"
  toNumber _ := none

def samplePayload : TicketPayload := wsTicketPayload sampleId (js "u") [js "o"] 40000

def sampleQuery : JsString := js "ticket=" ++ sampleRuntime.ticket samplePayload

theorem sampleQuery_unforged : sampleRuntime.Unforged [samplePayload] (some (sampleRuntime.ticket samplePayload)) := by
  intro text sig hraw hsig
  have hlen : sig.length = (sampleRuntime.sign samplePayload.base64).length := by rw [hsig,sign_length,sign_length]
  obtain ⟨htext,-⟩ := List.append_inj' (Option.some.inj hraw) (by simp [hlen])
  exact ⟨samplePayload,List.mem_singleton_self _,congrArg utf8Bytes htext.symm⟩

/-- A ticket is taken in its last second. -/
theorem handshakeSafe_minted : sampleRuntime.HandshakeSafe [samplePayload] sampleQuery 100000 ∧
    sampleRuntime.verifyTicket sampleQuery 100000 = .ok (some samplePayload.json) := by
  have hparam : ticketParam sampleQuery = some (sampleRuntime.ticket samplePayload) := by decide +kernel
  have hlive : 100000 / 1000 ≤ samplePayload.exp := by decide
  have hverify := verifyTicket_ticket hparam hlive
  refine ⟨(handshakeSafe_iff sampleRuntime [samplePayload] sampleQuery 100000 (hparam ▸ sampleQuery_unforged)).mpr ?_,hverify⟩
  rintro ⟨s,payloadB64,sig,hs,hsplit,-,hlen,hwide⟩
  rw [hparam] at hs
  cases hs
  obtain ⟨c,hc,hle⟩ := hwide
  have hall : ∀ d ∈ sampleRuntime.ticket samplePayload, d < 128 := by decide +kernel
  have hmem : c ∈ sampleRuntime.ticket samplePayload := by
    rw [eq_of_splitOn hsplit]
    exact List.mem_append_right _ (List.mem_cons_of_mem _ hc)
  exact absurd hle (UInt16.not_le.mpr (hall c hmem))

/-- Forty-three letters behind the stop that take two bytes each: the comparison throws, and nothing
catches it. -/
theorem wide_signature_crashes :
    sampleRuntime.onConnection (js "ticket=a." ++ (List.replicate 43 (js "%C3%A9")).flatten) 0 = .crashed ∧
    ¬sampleRuntime.HandshakeSafe [] (js "ticket=a." ++ (List.replicate 43 (js "%C3%A9")).flatten) 0 := by
  have hparam : ticketParam (js "ticket=a." ++ (List.replicate 43 (js "%C3%A9")).flatten) =
      some (js "a." ++ List.replicate 43 0xE9) := by decide +kernel
  have hwide : WideSignature (some (js "a." ++ List.replicate 43 0xE9)) :=
    ⟨_,js "a",List.replicate 43 0xE9,rfl,by decide +kernel,by decide,rfl,0xE9,by decide,by decide⟩
  have hcrash : sampleRuntime.onConnection (js "ticket=a." ++ (List.replicate 43 (js "%C3%A9")).flatten) 0 = .crashed := by
    rw [TicketRuntime.onConnection,TicketRuntime.verifyTicket,hparam]
    rfl
  exact ⟨hcrash,fun hsafe => hsafe.survives hcrash⟩

end Handshake

end JustMail.Realtime
