import JustMail.Foundation.IpAddress

/-! `common/ssrf.ts`: which addresses a webhook must never reach, and the check of its URL. -/
namespace JustMail.Webhooks
open Foundation

section Model

/-- `isIP` of `node:net`. -/
def isIP (s : JsString) : Nat := if (parseIpv4 s).isSome then 4 else if (parseIpv6 s).isSome then 6 else 0

/-- `Number(part)`, which is given digits only; nothing stands for NaN. -/
def number (part : JsString) : Option Nat := if part.all isDigit then some (digitsValue part) else none

/-- The ranges of `isBlockedV4`, by the first two octets. -/
def blockedOctets (a b : Nat) : Bool :=
  a = 0 || a = 10 || a = 127 || (a = 169 && b = 254) || (a = 172 && 16 ≤ b && b ≤ 31) || (a = 192 && b = 168) ||
  (a = 100 && 64 ≤ b && b ≤ 127) || 224 ≤ a

def isBlockedV4 (ip : JsString) : Bool :=
  match (ip.splitOn FULL_STOP).map number with
  | [some a,some b,some c,some d] => if 255 < a || 255 < b || 255 < c || 255 < d then true else blockedOctets a b
  | _ => true

/-- `/^::ffff:(\d+\.\d+\.\d+\.\d+)$/`. -/
def mappedTail (addr : JsString) : Option JsString :=
  if js "::ffff:" <+: addr then
    let d := addr.drop 7
    if (d.splitOn FULL_STOP).length = 4 ∧ ∀ part ∈ d.splitOn FULL_STOP, part ≠ [] ∧ part.all isDigit then some d else none
  else none

/-- `isBlockedV6` after the zone has been dropped. -/
def isBlockedBare (addr : JsString) : Bool :=
  if addr = js "::" ∨ addr = js "::1" then true
  else match mappedTail addr with
    | some v4 => isBlockedV4 v4
    | none => decide (js "fe80" <+: addr) || decide (js "fc" <+: addr) || decide (js "fd" <+: addr)

variable (cm : CaseMapping)

def isBlockedV6 (ip : JsString) : Bool :=
  let lower := cm.toLowerCase ip
  isBlockedBare ((cut PERCENT lower).elim lower Prod.fst)

def isBlockedAddress (ip : JsString) : Bool :=
  if isIP ip = 4 then isBlockedV4 ip else if isIP ip = 6 then isBlockedV6 cm ip else true

inductive UrlHost where
  | ipv4 (v : Ipv4)
  | ipv6 (a : Ipv6)
  | name (s : JsString)
  deriving DecidableEq

/-- `url.hostname`. -/
def UrlHost.hostname : UrlHost → JsString
  | .ipv4 v => v.text
  | .ipv6 a => unit '[' :: serializeIpv6 a ++ [unit ']']
  | .name s => s

structure ParsedUrl where
  protocol : JsString
  host : UrlHost
  deriving DecidableEq

/-- The URL parser and the resolver of the platform. -/
structure UrlEnv where
  parseUrl : JsString → Option ParsedUrl
  lookup : JsString → Option (List JsString)

/-- `host.replace(/^\[|\]$/g, "")`. -/
def stripBrackets (host : JsString) : JsString :=
  let host := if host.head? = some (unit '[') then host.tail else host
  if host.getLast? = some (unit ']') then host.dropLast else host

def assertPublicHttpUrl (env : UrlEnv) (raw : JsString) : Except JsString Unit :=
  match env.parseUrl raw with
  | none => .error (js "Invalid URL")
  | some url =>
    if url.protocol ≠ js "http:" ∧ url.protocol ≠ js "https:" then .error (js "Only http(s) webhook URLs are allowed")
    else
      let host := stripBrackets url.host.hostname
      if isIP host ≠ 0 then
        if isBlockedAddress cm host then .error (js "Webhook host is not a public address") else .ok ()
      else match env.lookup host with
        | none => .error (js "Webhook host does not resolve")
        | some addrs =>
          if addrs = [] ∨ addrs.any (isBlockedAddress cm) then .error (js "Webhook host resolves to a non-public address")
          else .ok ()

end Model

def blockedIpv4 (v : Ipv4) : Bool := blockedOctets v.a.toNat v.b.toNat

theorem number_decimal (n : Nat) : number (decimal n) = some n := by
  rw [number,if_pos (List.all_eq_true.mpr (decimal_digits n)),digitsValue_decimal]

theorem isBlockedV4_text (v : Ipv4) : isBlockedV4 v.text = blockedIpv4 v := by
  have hsplit : v.text.splitOn FULL_STOP = [decimal v.a.toNat,decimal v.b.toNat,decimal v.c.toNat,decimal v.d.toNat] := splitOn_text v
  have ha : v.a.toNat < 256 := v.a.toNat_lt
  have hb : v.b.toNat < 256 := v.b.toNat_lt
  have hc : v.c.toNat < 256 := v.c.toNat_lt
  have hd : v.d.toNat < 256 := v.d.toNat_lt
  have hsmall : (255 < v.a.toNat || 255 < v.b.toNat || 255 < v.c.toNat || 255 < v.d.toNat) = false := by
    simp only [Bool.or_eq_false_iff,decide_eq_false_iff_not]
    omega
  rw [isBlockedV4,hsplit]
  simp only [List.map_cons,List.map_nil,number_decimal,hsmall,Bool.false_eq_true,if_false]
  rfl

theorem isBlockedAddress_text (cm : CaseMapping) (v : Ipv4) : isBlockedAddress cm v.text = blockedIpv4 v := by
  have hkind : isIP v.text = 4 := if_pos (by rw [parseIpv4_text]; rfl)
  rw [isBlockedAddress,if_pos hkind,isBlockedV4_text]

section Spellings
variable {cm : CaseMapping} {s : JsString} {a : Ipv6}

/-- Units before the letters are not touched, and nothing else becomes one. -/
theorem asciiLower_eq_iff {c k : CodeUnit} (hk : k < 65) : asciiLower c = k ↔ c = k := by
  have hk' := UInt16.lt_iff_toNat_lt.mp hk
  rw [← UInt16.toNat_inj,← UInt16.toNat_inj,toNat_asciiLower]
  simp only [UInt16.reduceToNat] at hk'
  split <;> omega

theorem cut_percent_lower (s : JsString) :
    cut PERCENT (s.map asciiLower) = (cut PERCENT s).map fun p => (p.1.map asciiLower,p.2.map asciiLower) := by
  induction s with
  | nil => rfl
  | cons c s ih =>
    rw [List.map_cons,cut,cut]
    by_cases hc : c = PERCENT
    · rw [if_pos hc,if_pos ((asciiLower_eq_iff (by decide)).mpr hc)]
      rfl
    · rw [if_neg hc,if_neg (mt (asciiLower_eq_iff (by decide)).mp hc),ih,Option.map_map,Option.map_map]
      rfl

theorem addressUnit_lt {c : CodeUnit} (h : addressUnit c = true) : c < 128 := by
  simp only [addressUnit,Bool.or_eq_true,decide_eq_true_eq,or_assoc] at h
  rcases h with h | rfl | rfl
  · obtain ⟨d,hd⟩ := Option.isSome_iff_exists.mp h
    refine UInt16.lt_iff_toNat_lt.mpr ?_
    change c.toNat < 128
    rcases hexVal_cases hd with h | h | h <;> omega
  · decide
  · decide

theorem zoneUnit_lt {c : CodeUnit} (h : zoneUnit c = true) : c < 128 := by
  simp only [zoneUnit,isDigit,Bool.or_eq_true,Bool.and_eq_true,decide_eq_true_eq,or_assoc] at h
  rcases h with h | h | h | rfl | rfl | rfl
  · exact UInt16.lt_of_le_of_lt h.2 (by decide)
  · exact UInt16.lt_of_le_of_lt h.2 (by decide)
  · exact UInt16.lt_of_le_of_lt h.2 (by decide)
  · decide
  · decide
  · decide

/-- The part of a spelling before its zone. -/
theorem core_of_spelling (h : parseIpv6 s = some a) :
    ∃ core, parseCore core = some a ∧ (∀ c ∈ s, c < 128) ∧ COLON ∈ s ∧ (cut PERCENT s).elim s Prod.fst = core := by
  have hcolon {core : JsString} (h : parseCore core = some a) : COLON ∈ core := by
    rcases parseCore_first h with ⟨r,rfl,-⟩ | ⟨p,rest,rfl,-⟩
    · exact List.mem_cons_self
    · exact List.mem_append_right _ List.mem_cons_self
  unfold parseIpv6 at h
  cases hcut : cut PERCENT s with
  | none =>
    rw [hcut] at h
    exact ⟨s,h,fun c hc => addressUnit_lt (addressUnit_of_parseCore h c hc),hcolon h,rfl⟩
  | some p =>
    obtain ⟨core,zone⟩ := p
    rw [hcut] at h
    dsimp only at h
    split at h
    · rename_i hzone
      rw [eq_of_cut hcut]
      refine ⟨core,h,List.forall_mem_append.mpr ⟨fun c hc => addressUnit_lt (addressUnit_of_parseCore h c hc),?_⟩,
        List.mem_append_left _ (hcolon h),rfl⟩
      exact List.forall_mem_cons.mpr ⟨by decide,fun c hc => zoneUnit_lt (List.all_eq_true.mp hzone.2 c hc)⟩
    · cases h

theorem isIP_of_spelling (h : parseIpv6 s = some a) : isIP s = 6 := by
  obtain ⟨-,-,-,hcolon,-⟩ := core_of_spelling h
  have hquad : parseIpv4 s = none := by
    cases hv : parseIpv4 s with
    | none => rfl
    | some v =>
      rw [eq_text_of_parseIpv4 hv] at hcolon
      rcases mem_text hcolon with hdigit | hstop
      · cases hdigit
      · cases hstop
  rw [isIP,hquad,h]
  rfl

/-- A spelling is classified by what stands before its zone, in lower case. -/
theorem isBlockedAddress_of_spelling (cm : CaseMapping) (h : parseIpv6 s = some a) :
    ∃ core, parseCore core = some a ∧ (cut PERCENT s).elim s Prod.fst = core ∧
      isBlockedAddress cm s = isBlockedBare (core.map asciiLower) := by
  obtain ⟨core,hcore,hascii,-,hcut⟩ := core_of_spelling h
  refine ⟨core,hcore,hcut,?_⟩
  rw [isBlockedAddress,isIP_of_spelling h,if_neg (by decide),if_pos rfl,isBlockedV6,cm.lower_ascii s hascii,cut_percent_lower,← hcut]
  cases cut PERCENT s with
  | none => rfl
  | some p => rfl

end Spellings

section Classes
variable {ds : List Nat} {r core : JsString} {a : Ipv6}

/-- First groups whose four digits begin with `fe80`, `fc` or `fd`. -/
def LocalFirst (n : Nat) : Prop := n = 0xfe80 ∨ (0xfc00 ≤ n ∧ n ≤ 0xfdff)

/-- First groups that begin so only when their leading zeros are left out. -/
def ShortFirst (n : Nat) : Prop := n = 0xfc ∨ n = 0xfd ∨ (0xfc0 ≤ n ∧ n ≤ 0xfdf)

instance (n : Nat) : Decidable (LocalFirst n) := inferInstanceAs (Decidable (_ ∨ _))

instance (n : Nat) : Decidable (ShortFirst n) := inferInstanceAs (Decidable (_ ∨ _))

def LocalDigits (ds : List Nat) : Prop := [15,14,8,0] <+: ds ∨ [15,12] <+: ds ∨ [15,13] <+: ds

theorem isBlockedBare_digits (hds : ∀ d ∈ ds, d < 16) (hne : ds ≠ []) (r : JsString) :
    isBlockedBare (ds.map hexUnit ++ COLON :: r) = true ↔ LocalDigits ds := by
  have hfirst : ∀ d < 16, hexUnit d ≠ COLON := by decide
  have hstart (t : JsString) : ¬(COLON :: t <+: ds.map hexUnit ++ COLON :: r) := by
    obtain ⟨d,ds',rfl⟩ := List.exists_cons_of_ne_nil hne
    rw [List.map_cons,List.cons_append,List.cons_prefix_cons]
    exact fun h => hfirst d (hds d List.mem_cons_self) h.1.symm
  have hnot (t : JsString) : ds.map hexUnit ++ COLON :: r ≠ COLON :: t := fun h => hstart t (h ▸ List.prefix_rfl)
  have hspecial : ¬(ds.map hexUnit ++ COLON :: r = js "::" ∨ ds.map hexUnit ++ COLON :: r = js "::1") :=
    not_or.mpr ⟨hnot (js ":"),hnot (js ":1")⟩
  have hmapped : ¬(js "::ffff:" <+: ds.map hexUnit ++ COLON :: r) := hstart (js ":ffff:")
  rw [isBlockedBare,if_neg hspecial,mappedTail,if_neg hmapped]
  simp only [Bool.or_eq_true,decide_eq_true_eq,or_assoc]
  exact or_congr (prefix_group_iff [15,14,8,0] (by decide) hds)
    (or_congr (prefix_group_iff [15,12] (by decide) hds) (prefix_group_iff [15,13] (by decide) hds))

theorem localDigits_iff (hds : ∀ d ∈ ds, d < 16) (hlen : 1 ≤ ds.length ∧ ds.length ≤ 4) :
    (LocalDigits ds → LocalFirst (hexFold ds) ∨ ShortFirst (hexFold ds)) ∧ (LocalFirst (hexFold ds) → LocalDigits ds) ∧
    (ds.length = 4 → LocalDigits ds → LocalFirst (hexFold ds)) := by
  simp only [LocalDigits,LocalFirst,ShortFirst,hexFold]
  rcases ds with _ | ⟨x,_ | ⟨y,_ | ⟨z,_ | ⟨w,_ | ⟨v,ds⟩⟩⟩⟩⟩
  · simp at hlen
  · simp only [List.forall_mem_cons,List.not_mem_nil,false_implies,implies_true,and_true] at hds
    simp [List.cons_prefix_cons]
    omega
  · simp only [List.forall_mem_cons,List.not_mem_nil,false_implies,implies_true,and_true] at hds
    simp [List.cons_prefix_cons]
    omega
  · simp only [List.forall_mem_cons,List.not_mem_nil,false_implies,implies_true,and_true] at hds
    simp [List.cons_prefix_cons]
    omega
  · simp only [List.forall_mem_cons,List.not_mem_nil,false_implies,implies_true,and_true] at hds
    simp [List.cons_prefix_cons]
    omega
  · simp only [List.length_cons] at hlen
    omega

/-- What a spelling that does not begin with `::` is taken for. -/
theorem isBlockedBare_of_group (rest : JsString) {p : JsString} (hp : hexGroup? p = some a.first) :
    (isBlockedBare ((p ++ COLON :: rest).map asciiLower) = true → LocalFirst a.first.toNat ∨ ShortFirst a.first.toNat) ∧
    (LocalFirst a.first.toNat → isBlockedBare ((p ++ COLON :: rest).map asciiLower) = true) ∧
    (p.length = 4 → isBlockedBare ((p ++ COLON :: rest).map asciiLower) = true → LocalFirst a.first.toNat) := by
  obtain ⟨ds,hmap,hds,hlen,hfold⟩ := digits_of_hexGroup? hp
  have hne : ds ≠ [] := by
    rintro rfl
    simp at hlen
  have hlength : p.length = ds.length := by simpa using congrArg List.length hmap
  rw [List.map_append,hmap,List.map_cons,show asciiLower COLON = COLON from rfl,isBlockedBare_digits hds hne,← hfold,hlength]
  exact localDigits_iff hds hlen

def Ipv6.unspecified : Ipv6 := ⟨[0,0,0,0,0,0,0,0],rfl⟩

def Ipv6.loopback : Ipv6 := ⟨[0,0,0,0,0,0,0,1],rfl⟩

/-- The addresses of which one spelling at least is told from the others by its text. -/
def Special (a : Ipv6) : Prop := a = Ipv6.unspecified ∨ a = Ipv6.loopback ∨ ∃ v, a = .mapped v ∧ blockedIpv4 v = true

/-- The regular expression captures digits and full stops, of which there are three. -/
theorem mappedTail_eq_some {addr d : JsString} (h : mappedTail addr = some d) :
    addr = js "::ffff:" ++ d ∧ (∀ c ∈ d, isDigit c = true ∨ c = FULL_STOP) ∧ FULL_STOP ∈ d := by
  unfold mappedTail at h
  split at h
  · rename_i hprefix
    obtain ⟨t,rfl⟩ := hprefix
    rw [show (js "::ffff:" ++ t).drop 7 = t from rfl] at h
    dsimp only at h
    split at h
    · rename_i hparts
      cases h
      refine ⟨rfl,fun c hc => ?_,?_⟩
      · rcases mem_splitOn_of_mem FULL_STOP hc with h | ⟨part,hpart,hcp⟩
        · exact .inr h
        · exact .inl (List.all_eq_true.mp (hparts.2 part hpart).2 c hcp)
      · by_contra hstop
        rw [List.splitOn_eq_singleton hstop] at hparts
        simp at hparts
    · cases h
  · cases h

/-- A text is its own lower case where that has no letters. -/
theorem eq_of_map_asciiLower {s t : JsString} (h : s.map asciiLower = t) (ht : ∀ c ∈ t, c < 65) : s = t := by
  induction s generalizing t with
  | nil => exact h
  | cons c s ih =>
    subst h
    obtain ⟨hc,hs⟩ := List.forall_mem_cons.mp ht
    exact congrArg₂ List.cons ((asciiLower_eq_iff hc).mp rfl) (ih rfl hs)

/-- What a spelling that begins with `::` is taken for. -/
theorem isBlockedBare_of_colons (h : parseCore (COLON :: COLON :: r) = some a)
    (hblocked : isBlockedBare ((COLON :: COLON :: r).map asciiLower) = true) : Special a := by
  have hlower : (COLON :: COLON :: r).map asciiLower = COLON :: COLON :: r.map asciiLower := rfl
  rw [hlower] at hblocked
  unfold isBlockedBare at hblocked
  split at hblocked
  · rename_i hspecial
    rcases hspecial with hall | hall
    · obtain rfl : r = js "" := eq_of_map_asciiLower (List.cons.inj (List.cons.inj hall).2).2 (by decide)
      exact .inl (Option.some.inj (h.symm.trans (by decide)))
    · obtain rfl : r = js "1" := eq_of_map_asciiLower (List.cons.inj (List.cons.inj hall).2).2 (by decide)
      exact .inr (.inl (Option.some.inj (h.symm.trans (by decide))))
  · split at hblocked
    · rename_i d hd
      obtain ⟨hall,hunits,hstop⟩ := mappedTail_eq_some hd
      have hr : r.map asciiLower = js "ffff" ++ COLON :: d := (List.cons.inj (List.cons.inj hall).2).2
      obtain ⟨f,e,rfl,hf,he⟩ := List.map_eq_append_iff.mp hr
      obtain ⟨x,d',rfl,hx,hd'⟩ := List.map_eq_cons_iff.mp he
      obtain rfl : x = COLON := (asciiLower_eq_iff (by decide)).mp hx
      have hsmall : ∀ c ∈ d, c < 65 := by
        intro c hc
        rcases hunits c hc with hdigit | rfl
        · simp only [isDigit,Bool.and_eq_true,decide_eq_true_eq] at hdigit
          exact UInt16.lt_of_le_of_lt hdigit.2 (by decide)
        · decide
      obtain rfl : d' = d := eq_of_map_asciiLower hd' hsmall
      have hgroup : hexGroup? f = some 0xffff := by
        rw [← hexGroup?_map_asciiLower,hf]
        decide
      have hcolon : COLON ∉ d' := by
        intro hmem
        rcases hunits COLON hmem with hdigit | hstop
        · cases hdigit
        · cases hstop
      obtain ⟨v,hv,rfl⟩ := mapped_of_parseCore hgroup hcolon hstop h
      rw [eq_text_of_parseIpv4 hv,isBlockedV4_text] at hblocked
      exact .inr (.inr ⟨v,rfl,hblocked⟩)
    · -- no group begins with a colon
      have hno (c : CodeUnit) (t : JsString) (hc : c ≠ COLON) : ¬(c :: t <+: COLON :: COLON :: r.map asciiLower) := by
        rw [List.cons_prefix_cons]
        exact fun h => hc h.1
      have hfe : ¬(js "fe80" <+: COLON :: COLON :: r.map asciiLower) := hno 102 (js "e80") (by decide)
      have hfc : ¬(js "fc" <+: COLON :: COLON :: r.map asciiLower) := hno 102 (js "c") (by decide)
      have hfd : ¬(js "fd" <+: COLON :: COLON :: r.map asciiLower) := hno 102 (js "d") (by decide)
      simp [hfe,hfc,hfd] at hblocked

end Classes

section Addresses
variable {cm : CaseMapping} {s : JsString} {a : Ipv6}

theorem blocked_spelling (cm : CaseMapping) (h : parseIpv6 s = some a) :
    (isBlockedAddress cm s = true → LocalFirst a.first.toNat ∨ ShortFirst a.first.toNat ∨ Special a) ∧
    (LocalFirst a.first.toNat → isBlockedAddress cm s = true) := by
  obtain ⟨core,hcore,-,hsame⟩ := isBlockedAddress_of_spelling cm h
  rw [hsame]
  rcases parseCore_first hcore with ⟨r,rfl,hzero⟩ | ⟨p,rest,rfl,hp⟩
  · refine ⟨fun hblocked => .inr (.inr (isBlockedBare_of_colons hcore hblocked)),fun hlocal => ?_⟩
    rw [hzero] at hlocal
    exact absurd hlocal (by decide)
  · obtain ⟨hblocked,hlocal,-⟩ := isBlockedBare_of_group rest hp
    exact ⟨fun h => (hblocked h).imp_right .inl,hlocal⟩

theorem isBlockedAddress_joinGroups (cm : CaseMapping) {digits : UInt16 → JsString} (h : Spells digits) (a : Ipv6) :
    ∃ rest, isBlockedAddress cm (joinGroups digits a.groups) = isBlockedBare ((digits a.first ++ COLON :: rest).map asciiLower) := by
  obtain ⟨core,-,hcut,hsame⟩ := isBlockedAddress_of_spelling cm (parseIpv6_joinGroups h a)
  rw [cut_eq_none (notMem_joinGroups h rfl (by decide) a.groups)] at hcut
  obtain rfl : joinGroups digits a.groups = core := hcut
  obtain ⟨g,g',rest,hgroups⟩ : ∃ g g' rest, a.groups = g :: g' :: rest := by
    have hlen := a.length_groups
    match hg : a.groups with
    | [] => rw [hg] at hlen; cases hlen
    | [g] => rw [hg] at hlen; cases hlen
    | g :: g' :: rest => exact ⟨g,g',rest,rfl⟩
  refine ⟨joinGroups digits (g' :: rest),?_⟩
  rw [hsame,Ipv6.first,hgroups,joinGroups_cons_cons]
  rfl

/-- With all digits written out, only the first groups that are local are recognised. -/
theorem isBlockedAddress_full (cm : CaseMapping) (a : Ipv6) :
    isBlockedAddress cm (joinGroups hexFull a.groups) = true → LocalFirst a.first.toNat := by
  obtain ⟨rest,hrest⟩ := isBlockedAddress_joinGroups cm hexGroup?_hexFull a
  rw [hrest]
  exact (isBlockedBare_of_group _ (hexGroup?_hexFull a.first)).2.2 rfl

/-- Without leading zeros, a first group such as `00fc` is taken for one of a unique local address. -/
theorem isBlockedAddress_short (cm : CaseMapping) (h : ShortFirst a.first.toNat) :
    isBlockedAddress cm (joinGroups hexShort a.groups) = true := by
  obtain ⟨rest,hrest⟩ := isBlockedAddress_joinGroups cm hexGroup?_hexShort a
  obtain ⟨ds,hds,hlt,hlocal⟩ : ∃ ds, hexShort a.first = ds.map hexUnit ∧ (∀ d ∈ ds, d < 16) ∧ LocalDigits ds := by
    have hdrop (k : Nat) : (hexFull a.first).drop k = ((hexDigitsOf a.first).drop k).map hexUnit := by
      rw [List.map_drop]
      rfl
    have hmem (k : Nat) : ∀ d ∈ (hexDigitsOf a.first).drop k, d < 16 := fun d hd => hexDigitsOf_lt _ d (List.mem_of_mem_drop hd)
    unfold hexShort ShortFirst at *
    by_cases hsmall : a.first.toNat < 256
    · refine ⟨_,?_,hmem 2,?_⟩
      · rw [if_neg (by omega),if_pos hsmall,hdrop]
      · simp only [LocalDigits,hexDigitsOf,List.drop_succ_cons,List.drop_zero,List.cons_prefix_cons,List.nil_prefix,and_true]
        omega
    · refine ⟨_,?_,hmem 1,?_⟩
      · rw [if_neg (by omega),if_neg hsmall,if_pos (by omega),hdrop]
      · simp only [LocalDigits,hexDigitsOf,List.drop_succ_cons,List.drop_zero,List.cons_prefix_cons,List.nil_prefix,and_true]
        omega
  have hne : ds ≠ [] := by
    rintro rfl
    simp [LocalDigits] at hlocal
  have hlower : (ds.map hexUnit).map asciiLower = ds.map hexUnit := by
    rw [List.map_map]
    have hfixed : ∀ d < 16, asciiLower (hexUnit d) = hexUnit d := by decide
    exact List.map_congr_left fun d hd => hfixed d (hlt d hd)
  rw [hrest,hds,List.map_append,hlower,List.map_cons]
  exact (isBlockedBare_digits hlt hne _).mpr hlocal

end Addresses

section Law
variable {cm : CaseMapping} {host : UrlHost} {a : Ipv6}

/-- Whatever the URL looked like, it is turned away when it is parsed to this host. -/
def RejectsHost (cm : CaseMapping) (host : UrlHost) : Prop :=
  ∀ env raw protocol, env.parseUrl raw = some ⟨protocol,host⟩ → ∃ e, assertPublicHttpUrl cm env raw = .error e

/-- A literal host is checked by its text. -/
theorem rejectsHost_iff (h : isIP (stripBrackets host.hostname) ≠ 0) :
    RejectsHost cm host ↔ isBlockedAddress cm (stripBrackets host.hostname) = true := by
  constructor
  · intro hrejects
    obtain ⟨e,he⟩ := hrejects ⟨fun _ => some ⟨js "http:",host⟩,fun _ => none⟩ [] (js "http:") rfl
    by_contra hpublic
    rw [assertPublicHttpUrl] at he
    dsimp only at he
    rw [if_neg (by decide),if_pos h,if_neg hpublic] at he
    cases he
  · intro hblocked env raw protocol hparse
    rw [assertPublicHttpUrl,hparse]
    dsimp only
    rw [if_pos h,if_pos hblocked]
    split <;> exact ⟨_,rfl⟩

theorem stripBrackets_ipv6 (a : Ipv6) : stripBrackets (UrlHost.ipv6 a).hostname = serializeIpv6 a := by
  have hlast : (serializeIpv6 a ++ [unit ']']).getLast? = some (unit ']') := List.getLast?_concat
  rw [stripBrackets,UrlHost.hostname,List.cons_append,List.head?_cons,if_pos rfl,List.tail_cons,if_pos hlast,List.dropLast_concat]

theorem stripBrackets_ipv4 (v : Ipv4) : stripBrackets (UrlHost.ipv4 v).hostname = v.text := by
  have hno {c : CodeUnit} (hdigit : isDigit c = false) (hstop : c ≠ FULL_STOP) : c ∉ v.text := by
    intro hmem
    rcases mem_text hmem with h | h
    · rw [hdigit] at h
      cases h
    · exact hstop h
  have hhead : ¬v.text.head? = some (unit '[') := fun h => hno rfl (by decide) (List.mem_of_head? h)
  have hlast : ¬v.text.getLast? = some (unit ']') := fun h => hno rfl (by decide) (List.mem_of_getLast? h)
  rw [stripBrackets,UrlHost.hostname,if_neg hhead,if_neg hlast]

theorem rejectsHost_ipv6 (cm : CaseMapping) (a : Ipv6) :
    RejectsHost cm (.ipv6 a) ↔ isBlockedAddress cm (serializeIpv6 a) = true := by
  rw [rejectsHost_iff,stripBrackets_ipv6]
  rw [stripBrackets_ipv6,isIP_of_spelling (parseIpv6_serializeIpv6 a)]
  decide

theorem rejectsHost_ipv4 (cm : CaseMapping) (v : Ipv4) : RejectsHost cm (.ipv4 v) ↔ blockedIpv4 v = true := by
  have hkind : isIP v.text = 4 := if_pos (by rw [parseIpv4_text]; rfl)
  rw [rejectsHost_iff,stripBrackets_ipv4,isBlockedAddress_text]
  rw [stripBrackets_ipv4,hkind]
  decide

/-- `::/128`, `::1/128`, `fe80::/10` and `fc00::/7`. -/
def Reserved (a : Ipv6) : Prop :=
  a = Ipv6.unspecified ∨ a = Ipv6.loopback ∨ (0xfe80 ≤ a.first.toNat ∧ a.first.toNat ≤ 0xfebf) ∨
  (0xfc00 ≤ a.first.toNat ∧ a.first.toNat ≤ 0xfdff)

/-- The answer goes by the address, and it is the one that the ranges call for. -/
structure GoesByAddress (cm : CaseMapping) (a : Ipv6) : Prop where
  spelling : ∀ s s', parseIpv6 s = some a → parseIpv6 s' = some a → isBlockedAddress cm s = isBlockedAddress cm s'
  reserved : Reserved a → ∀ s, parseIpv6 s = some a → isBlockedAddress cm s = true
  mapped : ∀ v, a = .mapped v → ∀ s, parseIpv6 s = some a → isBlockedAddress cm s = isBlockedAddress cm v.text
  urls : (Reserved a ∨ ∃ v, a = .mapped v ∧ isBlockedAddress cm v.text = true) → RejectsHost cm (.ipv6 a)

/-- The addresses that are not told by their text. -/
def Misread (a : Ipv6) : Prop :=
  a = Ipv6.unspecified ∨ a = Ipv6.loopback ∨ (∃ v, a = .mapped v ∧ blockedIpv4 v = true) ∨
  (0xfe81 ≤ a.first.toNat ∧ a.first.toNat ≤ 0xfebf) ∨ ShortFirst a.first.toNat

theorem first_mapped (v : Ipv4) : (Ipv6.mapped v).first = 0 := rfl

/-- Of the other addresses every spelling is judged by the first group. -/
theorem blocked_iff_of_not_misread (h : ¬Misread a) {s : JsString} (hs : parseIpv6 s = some a) :
    isBlockedAddress cm s = true ↔ LocalFirst a.first.toNat := by
  obtain ⟨hblocked,hlocal⟩ := blocked_spelling cm hs
  refine ⟨fun hb => ?_,hlocal⟩
  rcases hblocked hb with hl | hshort | hspecial
  · exact hl
  · exact absurd (.inr (.inr (.inr (.inr hshort)))) h
  · rcases hspecial with hz | hone | hv
    · exact absurd (.inl hz) h
    · exact absurd (.inr (.inl hone)) h
    · exact absurd (.inr (.inr (.inl hv))) h

theorem goesByAddress_of_not_misread (h : ¬Misread a) : GoesByAddress cm a := by
  have hreserved : Reserved a → LocalFirst a.first.toNat := by
    intro hr
    simp only [Misread,not_or] at h
    obtain ⟨hz,hone,-,hlink,-⟩ := h
    rcases hr with hr | hr | hr | hr
    · exact absurd hr hz
    · exact absurd hr hone
    · exact .inl (by omega)
    · exact .inr hr
  have hmapped (v : Ipv4) (hv : a = .mapped v) : isBlockedAddress cm v.text = false := by
    rw [isBlockedAddress_text]
    exact Bool.eq_false_iff.mpr fun hb => h (.inr (.inr (.inl ⟨v,hv,hb⟩)))
  constructor
  · intro s s' hs hs'
    rw [Bool.eq_iff_iff,blocked_iff_of_not_misread h hs,blocked_iff_of_not_misread h hs']
  · exact fun hr s hs => (blocked_iff_of_not_misread h hs).mpr (hreserved hr)
  · intro v hv s hs
    rw [hmapped v hv]
    refine Bool.eq_false_iff.mpr fun hb => ?_
    have hlocal := (blocked_iff_of_not_misread h hs).mp hb
    rw [hv,first_mapped] at hlocal
    exact absurd hlocal (by decide)
  · rintro (hr | ⟨v,hv,hb⟩)
    · rw [rejectsHost_ipv6]
      exact (blocked_iff_of_not_misread h (parseIpv6_serializeIpv6 a)).mpr (hreserved hr)
    · rw [hmapped v hv] at hb
      cases hb

theorem classification_iff (cm : CaseMapping) :
    (∀ a, GoesByAddress cm a ↔ ¬Misread a) ∧ ∀ v, RejectsHost cm (.ipv4 v) ↔ blockedIpv4 v = true := by
  refine ⟨fun a => ⟨fun h hmis => ?_,goesByAddress_of_not_misread⟩,rejectsHost_ipv4 cm⟩
  have hfull := parseIpv6_joinGroups hexGroup?_hexFull a
  have hpublic (hlocal : ¬LocalFirst a.first.toNat) : isBlockedAddress cm (joinGroups hexFull a.groups) = false :=
    Bool.eq_false_iff.mpr fun hb => hlocal (isBlockedAddress_full cm a hb)
  have hreserved (hr : Reserved a) (hlocal : ¬LocalFirst a.first.toNat) : False := by
    have hb := h.reserved hr _ hfull
    rw [hpublic hlocal] at hb
    cases hb
  rcases hmis with rfl | rfl | ⟨v,rfl,hv⟩ | hlink | hshort
  · exact hreserved (.inl rfl) (by decide)
  · exact hreserved (.inr (.inl rfl)) (by decide)
  · have hsame := h.mapped v rfl _ hfull
    rw [isBlockedAddress_text,hv,hpublic (by rw [first_mapped]; decide)] at hsame
    cases hsame
  · refine hreserved (.inr (.inr (.inl (by omega)))) ?_
    unfold LocalFirst
    omega
  · have hsame := h.spelling _ _ hfull (parseIpv6_joinGroups hexGroup?_hexShort a)
    rw [isBlockedAddress_short cm hshort,hpublic] at hsame
    · cases hsame
    · unfold LocalFirst
      unfold ShortFirst at hshort
      omega

/-- The loopback address of IPv4, written as a mapped one in hexadecimal. -/
theorem mapped_loopback_reached : parseIpv6 (js "::ffff:7f00:1") = some (.mapped ⟨127,0,0,1⟩) ∧
    isBlockedAddress asciiCase (js "::ffff:7f00:1") = false ∧ isBlockedAddress asciiCase (js "127.0.0.1") = true ∧
    assertPublicHttpUrl asciiCase ⟨fun _ => some ⟨js "http:",.ipv6 (.mapped ⟨127,0,0,1⟩)⟩,
    fun _ => none⟩ (js "http://[::ffff:127.0.0.1]/") = .ok () ∧
    ¬∀ a, GoesByAddress asciiCase a := by
  have hparse : parseIpv6 (js "::ffff:7f00:1") = some (.mapped ⟨127,0,0,1⟩) := by decide
  have hpublic : isBlockedAddress asciiCase (js "::ffff:7f00:1") = false := by decide
  have hblocked : isBlockedAddress asciiCase (Ipv4.text ⟨127,0,0,1⟩) = true := by decide
  refine ⟨hparse,hpublic,hblocked,by decide,fun h => ?_⟩
  have hsame := (h _).mapped _ rfl _ hparse
  rw [hpublic,hblocked] at hsame
  cases hsame

end Law
end JustMail.Webhooks
