import JustMail.Foundation.Runs
import JustMail.Webmail.CredentialStore

/-! Both backends of the credential store carry out one abstract store, in which a
credential is a value with an expiry time under a session and a mailbox. -/
namespace JustMail.Webmail
open Foundation

section Keys
variable {s s' m m' : UuidText}

theorem UuidText.text_inj : s.text = s'.text ↔ s = s' := by
  rw [UuidText.mk.injEq]

/-- Two ids around a separator can be told apart. -/
private theorem ids_inj (sep : JsString) (h : s.text ++ sep ++ m.text = s'.text ++ sep ++ m'.text) : s = s' ∧ m = m' := by
  have hlength : (s.text ++ sep).length = (s'.text ++ sep).length := by simp [s.length,s'.length]
  obtain ⟨hs,hm⟩ := List.append_inj h hlength
  exact ⟨UuidText.text_inj.mp (List.append_cancel_right hs),UuidText.text_inj.mp hm⟩

theorem credKey_inj : credKey s.text m.text = credKey s'.text m'.text ↔ s = s' ∧ m = m' := by
  constructor
  · intro h
    simp only [credKey,List.append_assoc] at h
    refine ids_inj (js ":") ?_
    simpa only [List.append_assoc] using List.append_cancel_left h
  · rintro ⟨rfl,rfl⟩
    rfl

theorem settingsKey_inj : settingsKey s.text m.text = settingsKey s'.text m'.text ↔ s = s' ∧ m = m' := by
  constructor
  · intro h
    simp only [settingsKey,List.append_assoc] at h
    refine ids_inj (js ".") ?_
    simpa only [List.append_assoc] using List.append_cancel_left h
  · rintro ⟨rfl,rfl⟩
    rfl

theorem idxKey_inj : idxKey s.text = idxKey s'.text ↔ s = s' := by
  rw [idxKey,idxKey,List.append_cancel_left_eq,UuidText.text_inj]

theorem credKey_ne_idxKey : credKey s.text m.text ≠ idxKey s'.text := by
  intro h
  have hlength := congrArg List.length h
  have hcred : (js "webmail:cred:").length = 13 := by decide
  have hidx : (js "webmail:cred:idx:").length = 17 := by decide
  have hsep : (js ":").length = 1 := by decide
  simp only [credKey,idxKey,List.length_append,s.length,m.length,s'.length,hcred,hidx,hsep] at hlength
  omega

/-- A unit that stands for itself in a pattern of LIKE. -/
def isPlain (c : CodeUnit) : Bool := c ≠ unit '%' && c ≠ unit '_' && c ≠ unit '\\'

theorem isPlain_of_isUuidUnit {c : CodeUnit} (h : isUuidUnit c = true) : isPlain c = true := by
  have hpercent : isUuidUnit (unit '%') = false := by decide
  have hunderscore : isUuidUnit (unit '_') = false := by decide
  have hescape : isUuidUnit (unit '\\') = false := by decide
  simp only [isPlain,Bool.and_eq_true,decide_eq_true_iff]
  refine ⟨⟨?_,?_⟩,?_⟩
  · rintro rfl
    simp [hpercent] at h
  · rintro rfl
    simp [hunderscore] at h
  · rintro rfl
    simp [hescape] at h

theorem likeTokens_plain {pattern : JsString} (hplain : ∀ c ∈ pattern, isPlain c = true) (rest : JsString) :
    likeTokens false (pattern ++ rest) = pattern.map .exact ++ likeTokens false rest := by
  induction pattern with
  | nil => rfl
  | cons c pattern ih =>
    have hc := hplain c List.mem_cons_self
    simp only [isPlain,Bool.and_eq_true,decide_eq_true_iff] at hc
    obtain ⟨⟨hpercent,hunderscore⟩,hescape⟩ := hc
    rw [List.cons_append,likeTokens,if_neg hescape,LikeToken.ofUnit,if_neg hpercent,if_neg hunderscore,
      ih fun d hd => hplain d (List.mem_cons_of_mem c hd)]
    rfl

theorem matchTokens_exact (pattern text : JsString) :
    matchTokens (pattern.map .exact ++ [.anyString]) text = true ↔ pattern <+: text := by
  induction pattern generalizing text with
  | nil => simp [matchTokens]
  | cons c pattern ih =>
    cases text with
    | nil => simp [matchTokens]
    | cons t text => simp [matchTokens,ih]

theorem isPrefix_of_like {pattern rest text : JsString} (hplain : ∀ c ∈ pattern, isPlain c = true)
    (h : like (pattern ++ rest) text = true) : pattern <+: text := by
  rw [like,likeTokens_plain hplain] at h
  generalize likeTokens false rest = tokens at h
  clear hplain
  induction pattern generalizing text with
  | nil => exact List.nil_prefix
  | cons c pattern ih =>
    cases text with
    | nil => simp [matchTokens] at h
    | cons t text =>
      simp only [List.map_cons,List.cons_append,matchTokens,Bool.and_eq_true,decide_eq_true_eq] at h
      obtain ⟨rfl,h⟩ := h
      exact (List.prefix_cons_inj c).mpr (ih h)

/-- A plain text before `%` matches what starts with it. -/
theorem like_percent {pattern : JsString} (hplain : ∀ c ∈ pattern, isPlain c = true) (text : JsString) :
    like (pattern ++ js "%") text = true ↔ pattern <+: text := by
  have hpercent : likeTokens false (js "%") = [.anyString] := by decide
  rw [like,likeTokens_plain hplain,hpercent,matchTokens_exact]

private theorem plain_session : ∀ c ∈ js "webmail.session:", isPlain c = true := by decide

theorem plain_settingsPrefix (s : UuidText) : ∀ c ∈ settingsPrefix s.text, isPlain c = true := by
  have hdot : ∀ c ∈ js ".", isPlain c = true := by decide
  intro c hc
  rcases List.mem_append.mp hc with hc | hc
  · rcases List.mem_append.mp hc with hc | hc
    · exact plain_session c hc
    · exact isPlain_of_isUuidUnit (s.units c hc)
  · exact hdot c hc

/-- The pattern of `purgeSession` matches the rows of its session. -/
theorem like_settingsPrefix : like (settingsPrefix s.text ++ js "%") (settingsKey s'.text m.text) = true ↔ s' = s := by
  rw [like_percent (plain_settingsPrefix s)]
  constructor
  · rintro ⟨rest,h⟩
    simp only [settingsPrefix,settingsKey,List.append_assoc] at h
    have hids := List.append_inj (List.append_cancel_left h) (by rw [s.length,s'.length])
    exact UuidText.text_inj.mp hids.1.symm
  · rintro rfl
    exact ⟨m.text,rfl⟩

end Keys

section Vault

structure Credential where
  address : JsString
  password : JsString
  expiresAt : Nat

/-- The store as its callers see it. -/
abbrev Vault := UuidText → UuidText → Option Credential

namespace Vault

def find (v : Vault) (now : Nat) (s m : UuidText) : Option Credential := (v s m).filter (now < ·.expiresAt)

def set (v : Vault) (s m : UuidText) (c : Option Credential) : Vault :=
  fun s' m' => if s' = s ∧ m' = m then c else v s' m'

def forget (v : Vault) (s : UuidText) : Vault := fun s' m => if s' = s then none else v s' m

theorem find_set (v : Vault) (now : Nat) (s m s' m' : UuidText) (c : Option Credential) :
    find (v.set s m c) now s' m' = if s' = s ∧ m' = m then c.filter (now < ·.expiresAt) else v.find now s' m' := by
  by_cases h : s' = s ∧ m' = m <;> simp [find,set,h]

theorem find_set_ne (v : Vault) (now : Nat) {s s' : UuidText} (hs : s' ≠ s) (m : UuidText) (c : Option Credential) :
    find (v.set s m c) now s' = v.find now s' := by
  funext m'
  rw [find_set,if_neg fun h => hs h.1]

theorem find_forget (v : Vault) (now : Nat) (s s' m : UuidText) :
    find (v.forget s) now s' m = if s' = s then none else v.find now s' m := by
  by_cases h : s' = s <;> simp [find,forget,h]

theorem find_later (v : Vault) {now later : Nat} (hle : now ≤ later) (s m : UuidText) :
    v.find later s m = (v.find now s m).filter (later < ·.expiresAt) := by
  refine (filter_later fun c hlater => ?_).symm
  exact decide_eq_true (Nat.lt_of_le_of_lt hle (of_decide_eq_true hlater))

end Vault

variable (ttl : Nat) {ν : Type}

def vaultStep (v : Vault) (c : TimedCall ν) : Vault × StoreReply :=
  match c.call with
  | .store s m address password => (v.set s m (some ⟨address,password,c.time + ttl⟩),.done)
  | .get s m =>
    match v.find c.time s m with
    | none => (v,.creds none)
    | some cred =>
      (v.set s m (some ⟨cred.address,cred.password,c.time + ttl⟩),.creds (some ⟨cred.address,cred.password⟩))
  | .remove s m => (v.set s m none,.done)
  | .purgeSession s => (v.forget s,.done)
  | .sweepExpired => (v,.done)

theorem filter_fresh {now : Nat} {address password : JsString} {ttl : Nat} (hpos : 0 < ttl) :
    (some (⟨address,password,now + ttl⟩ : Credential)).filter (now < ·.expiresAt) = some ⟨address,password,now + ttl⟩ :=
  Option.filter_eq_some_iff.mpr ⟨rfl,by simp [hpos]⟩

end Vault

section Settings
variable {ν : Type} {ttl : Nat} {box : Secretbox ν} {now : Nat} {t : Settings} {v : Vault}

def Secretbox.unseal (box : Secretbox ν) (value : StoredValue) : Credential :=
  ⟨value.address,box.openSealed value.sealed,value.expiresAt⟩

def Settings.find (t : Settings) (now : Nat) (s m : UuidText) : Option StoredValue :=
  ((Table.lookup t (settingsKey s.text m.text)).map SettingsRow.value).filter (now < ·.expiresAt)

/-- Rows that have expired may still be there. -/
def SettingsHold (box : Secretbox ν) (now : Nat) (t : Settings) (v : Vault) : Prop :=
  ∀ s m, (t.find now s m).map box.unseal = v.find now s m

theorem SettingsHold.mono {later : Nat} (h : SettingsHold box now t v) (hle : now ≤ later) : SettingsHold box later t v := by
  intro s m
  rw [v.find_later hle,← h s m,Option.filter_map]
  have hfind : t.find later s m = (t.find now s m).filter (later < ·.expiresAt) := by
    refine (filter_later fun value hlater => ?_).symm
    exact decide_eq_true (Nat.lt_of_le_of_lt hle (of_decide_eq_true hlater))
  rw [hfind]
  rfl

section Statements
variable (t : Settings) (now : Nat) (s m s' m' : UuidText)

theorem Settings.find_store (address sealed : JsString) (hpos : 0 < ttl) :
    (Settings.store ttl t now s.text m.text address sealed).find now s' m' =
      if s' = s ∧ m' = m then some ⟨address,sealed,now + ttl⟩ else t.find now s' m' := by
  rw [Settings.find,Settings.store,Table.lookup_upsert]
  by_cases h : s' = s ∧ m' = m
  · rw [if_pos h,if_pos (settingsKey_inj.mpr h)]
    exact Option.filter_some_pos (decide_eq_true (Nat.lt_add_of_pos_right hpos))
  · rw [if_neg h,if_neg fun hkey => h (settingsKey_inj.mp hkey)]
    rfl

/-- A DELETE leaves what its condition does not meet. -/
theorem Settings.find_deleteWhere (p : SettingsRow → Bool) (hkeep : ∀ row, row.key = settingsKey s.text m.text →
    now < row.value.expiresAt → p row = false) :
    Settings.find (Table.deleteWhere t p) now s m = t.find now s m := by
  rw [Settings.find,Settings.find,Table.lookup_deleteWhere]
  cases hrow : Table.lookup t (settingsKey s.text m.text) with
  | none => rfl
  | some row =>
    by_cases halive : now < row.value.expiresAt
    · rw [Option.filter_some_pos (by simp [hkeep row (Table.key_of_lookup hrow) halive])]
    · cases hp : p row with
      | true => simp [hp,Option.filter,halive]
      | false => simp [hp,Option.filter]

theorem Settings.find_deleted (p : SettingsRow → Bool) (hdelete : ∀ row, row.key = settingsKey s.text m.text → p row = true) :
    Settings.find (Table.deleteWhere t p) now s m = none := by
  rw [Settings.find,Table.lookup_deleteWhere]
  cases hrow : Table.lookup t (settingsKey s.text m.text) with
  | none => rfl
  | some row => simp [Option.filter,hdelete row (Table.key_of_lookup hrow)]

theorem Settings.find_remove :
    (Settings.remove t s.text m.text).find now s' m' = if s' = s ∧ m' = m then none else t.find now s' m' := by
  by_cases h : s' = s ∧ m' = m
  · rw [if_pos h]
    exact Settings.find_deleted t now s' m' _ fun row hkey => decide_eq_true (hkey.trans (settingsKey_inj.mpr h))
  · rw [if_neg h]
    exact Settings.find_deleteWhere t now s' m' _ fun row hkey _ =>
      decide_eq_false fun hrow => h (settingsKey_inj.mp (hkey.symm.trans hrow))

theorem Settings.find_slide {row : SettingsRow} (hrow : Table.lookup t (settingsKey s.text m.text) = some row) (hpos : 0 < ttl) :
    Settings.find (Table.updateWhere t (fun row => row.key = settingsKey s.text m.text) (SettingsRow.slide (now + ttl))
      (SettingsRow.slide_key (now + ttl))) now s' m' =
      if s' = s ∧ m' = m then some ⟨row.value.address,row.value.sealed,now + ttl⟩ else t.find now s' m' := by
  rw [Settings.find,Table.lookup_updateWhere]
  by_cases h : s' = s ∧ m' = m
  · obtain ⟨rfl,rfl⟩ := h
    rw [if_pos ⟨rfl,rfl⟩,hrow]
    have hkey : row.key = settingsKey s'.text m'.text := Table.key_of_lookup hrow
    simp only [Option.map_some,hkey,decide_true,if_true]
    exact Option.filter_some_pos (decide_eq_true (Nat.lt_add_of_pos_right hpos))
  · rw [if_neg h,Settings.find]
    cases hrow' : Table.lookup t (settingsKey s'.text m'.text) with
    | none => rfl
    | some row' =>
      have hkey : row'.key ≠ settingsKey s.text m.text :=
        fun hkey => h (settingsKey_inj.mp ((Table.key_of_lookup hrow').symm.trans hkey))
      simp [hkey]

theorem Settings.find_purgeSession :
    (Settings.purgeSession t s.text).find now s' m = if s' = s then none else t.find now s' m := by
  by_cases h : s' = s
  · rw [if_pos h]
    exact Settings.find_deleted t now s' m _ fun row hkey => by rw [hkey]; exact like_settingsPrefix.mpr h
  · rw [if_neg h]
    refine Settings.find_deleteWhere t now s' m _ fun row hkey _ => ?_
    rw [hkey,Bool.eq_false_iff]
    exact fun hlike => h (like_settingsPrefix.mp hlike)

theorem Settings.find_sweepExpired : (Settings.sweepExpired t now).find now s m = t.find now s m :=
  Settings.find_deleteWhere t now s m _ fun row _ halive => by simp [halive]

end Statements

theorem settings_get (hpos : 0 < ttl) (h : SettingsHold box now t v) (s m : UuidText) {redisNonce settingsNonce : ν} :
    SettingsHold box now (Settings.get ttl t now box.openSealed s.text m.text).1
      (vaultStep ttl v ⟨now,.get s m,redisNonce,settingsNonce⟩).1 ∧
    (Settings.get ttl t now box.openSealed s.text m.text).2 =
      (vaultStep ttl v ⟨now,.get s m,redisNonce,settingsNonce⟩).2 := by
  have hfind := h s m
  simp only [vaultStep,Settings.get]
  cases hrow : Table.lookup t (settingsKey s.text m.text) with
  | none =>
    rw [Settings.find,hrow] at hfind
    simp only [← hfind,Option.map_none,Option.filter_none]
    exact ⟨h,trivial⟩
  | some row =>
    rw [Settings.find,hrow,Option.map_some] at hfind
    by_cases hexpired : row.value.expiresAt ≤ now
    · have hgone : v.find now s m = none := by
        rw [← hfind]
        simp [Option.filter_some,hexpired]
      simp only [hexpired,if_true,hgone]
      refine ⟨fun s' m' => ?_,trivial⟩
      rw [Settings.find_remove]
      split
      · rename_i heq
        rw [heq.1,heq.2,hgone]
        rfl
      · exact h s' m'
    · simp only [Option.filter_some,Nat.lt_of_not_le hexpired,decide_true,if_true] at hfind
      simp only [hexpired,if_false,← hfind,Option.map_some]
      refine ⟨fun s' m' => ?_,rfl⟩
      rw [Settings.find_slide t now s m s' m' hrow hpos,Vault.find_set,filter_fresh hpos]
      split
      · rfl
      · exact h s' m'

/-- The table carries out the abstract store, and replies as it does. -/
theorem settings_step (hpos : 0 < ttl) (h : SettingsHold box now t v) (c : TimedCall ν) (hle : now ≤ c.time) :
    SettingsHold box c.time (settingsStep ttl box t c).1 (vaultStep ttl v c).1 ∧
      (settingsStep ttl box t c).2 = (vaultStep ttl v c).2 := by
  obtain ⟨time,call,redisNonce,settingsNonce⟩ := c
  have h : SettingsHold box time t v := h.mono hle
  cases call with
  | store s m address password =>
    refine ⟨fun s' m' => ?_,rfl⟩
    simp only [settingsStep,vaultStep]
    rw [Settings.find_store t time s m s' m' _ _ hpos,Vault.find_set,filter_fresh hpos]
    split
    · simp [Secretbox.unseal,box.open_seal]
    · exact h s' m'
  | get s m => exact settings_get hpos h s m
  | remove s m =>
    refine ⟨fun s' m' => ?_,rfl⟩
    simp only [settingsStep,vaultStep]
    rw [Settings.find_remove,Vault.find_set]
    split
    · rfl
    · exact h s' m'
  | purgeSession s =>
    refine ⟨fun s' m => ?_,rfl⟩
    simp only [settingsStep,vaultStep]
    rw [Settings.find_purgeSession,Vault.find_forget]
    split
    · rfl
    · exact h s' m
  | sweepExpired =>
    refine ⟨fun s m => ?_,rfl⟩
    exact (congrArg _ (Settings.find_sweepExpired t time s m)).trans (h s m)

end Settings

section Redis
variable {ν : Type} {ttl : Nat} {box : Secretbox ν} {now : Nat} {r : Redis} {v : Vault} {creds : UuidText → Option Credential}
variable {members : List UuidText} {key : JsString}

def credEntry (value : StoredValue) : Entry (Stored RedisPayload JsString) :=
  ⟨.string ⟨value.address,value.sealed⟩,some value.expiresAt⟩

/-- The index of a session lists its live credentials and outlives them. -/
inductive Indexed (creds : UuidText → Option Credential) : Option (Entry (Stored RedisPayload JsString)) → Prop
  | absent (h : ∀ m, creds m = none) : Indexed creds none
  | present (members : List UuidText) (expiresAt : Nat)
    (h : ∀ m c, creds m = some c → m ∈ members ∧ c.expiresAt ≤ expiresAt) :
    Indexed creds (some ⟨.set (members.map UuidText.text),some expiresAt⟩)

structure RedisHold (box : Secretbox ν) (ttl now : Nat) (r : Redis) (v : Vault) : Prop where
  creds : ∀ s m, ∃ value : Option StoredValue, r.find now (credKey s.text m.text) = value.map credEntry ∧
    value.map box.unseal = v.find now s m
  index : ∀ s, Indexed (v.find now s) (r.find now (idxKey s.text))
  bounded : ∀ s m c, v.find now s m = some c → c.expiresAt ≤ now + ttl

theorem Indexed.mono {idx : Option (Entry (Stored RedisPayload JsString))} (h : Indexed creds idx)
    (later : Nat) : Indexed (fun m => (creds m).filter (later < ·.expiresAt)) (idx.filter (·.alive later)) := by
  cases h with
  | absent h => exact .absent fun m => by rw [h m]; rfl
  | present members expiresAt h =>
    by_cases hlater : later < expiresAt
    · rw [Option.filter_some_pos (by simp [hlater])]
      refine .present members expiresAt fun m c hc => ?_
      exact h m c (Option.filter_eq_some_iff.mp hc).1
    · rw [Option.filter_some_neg (by simp [hlater])]
      refine .absent fun m => Option.filter_eq_none_iff.mpr fun c hc halive => hlater ?_
      exact Nat.lt_of_lt_of_le (of_decide_eq_true halive) (h m c hc).2

theorem RedisHold.mono {later : Nat} (h : RedisHold box ttl now r v) (hle : now ≤ later) : RedisHold box ttl later r v := by
  refine ⟨fun s m => ?_,fun s => ?_,fun s m c hc => ?_⟩
  · obtain ⟨value,hentry,hcred⟩ := h.creds s m
    have halive : (Entry.alive later ∘ credEntry) = fun value : StoredValue => decide (later < value.expiresAt) :=
      funext fun value => Entry.alive_some
    refine ⟨value.filter (later < ·.expiresAt),?_,?_⟩
    · rw [Keyspace.find_later r hle,hentry,Option.filter_map]
      exact congrArg (fun p => Option.map credEntry (Option.filter p value)) halive
    · rw [v.find_later hle,← hcred,Option.filter_map]
      rfl
  · have hfind : v.find later s = fun m => (v.find now s m).filter (later < ·.expiresAt) :=
      funext fun m => v.find_later hle s m
    rw [Keyspace.find_later r hle,hfind]
    exact (h.index s).mono later
  · rw [v.find_later hle] at hc
    exact (h.bounded s m c (Option.filter_eq_some_iff.mp hc).1).trans (Nat.add_le_add_right hle ttl)

/-- A credential is written, and the index of its session lists it from now on. -/
theorem RedisHold.refresh {r' : Redis} {s m : UuidText} {value : StoredValue} (h : RedisHold box ttl now r v)
    (hpos : 0 < ttl) (hfresh : value.expiresAt = now + ttl)
    (hcreds : ∀ s' m' : UuidText, r'.find now (credKey s'.text m'.text) =
      if s' = s ∧ m' = m then some (credEntry value) else r.find now (credKey s'.text m'.text))
    (hothers : ∀ s', s' ≠ s → r'.find now (idxKey s'.text) = r.find now (idxKey s'.text))
    (hindex : r'.find now (idxKey s.text) = some ⟨.set (members.map UuidText.text),some (now + ttl)⟩)
    (hmembers : ∀ m' c, v.find now s m' = some c → m' ∈ members) (hm : m ∈ members) :
    RedisHold box ttl now r' (v.set s m (some (box.unseal value))) := by
  have hlive : (some (box.unseal value)).filter (now < ·.expiresAt) = some (box.unseal value) :=
    Option.filter_some_pos (by simp [Secretbox.unseal,hfresh,hpos])
  have hbound : ∀ s' m' c, Vault.find (v.set s m (some (box.unseal value))) now s' m' = some c → c.expiresAt ≤ now + ttl := by
    intro s' m' c hc
    rw [Vault.find_set,hlive] at hc
    split at hc
    · rw [← Option.some.inj hc,Secretbox.unseal]
      exact hfresh.le
    · exact h.bounded s' m' c hc
  refine ⟨fun s' m' => ?_,fun s' => ?_,hbound⟩
  · rw [hcreds,Vault.find_set,hlive]
    split
    · exact ⟨some value,rfl,rfl⟩
    · exact h.creds s' m'
  · by_cases hs : s' = s
    · subst hs
      rw [hindex]
      refine .present members (now + ttl) fun m' c hc => ⟨?_,hbound s' m' c hc⟩
      rw [Vault.find_set] at hc
      split at hc
      · rename_i heq
        exact heq.2 ▸ hm
      · exact hmembers m' c hc
    · rw [hothers s' hs,Vault.find_set_ne v now hs]
      exact h.index s'

private theorem mem_texts {m : UuidText} : m.text ∈ members.map UuidText.text ↔ m ∈ members := by
  simp [UuidText.text_inj]

/-- `SADD` of a mailbox to the index of its session. -/
theorem Indexed.sadd (h : Indexed creds (r.find now key)) (m : UuidText) :
    ∃ (members : List UuidText) (expiresAt : Option Nat),
    (Keyspace.sadd r now key m.text).find now key = some ⟨.set (members.map UuidText.text),expiresAt⟩ ∧
      m ∈ members ∧ ∀ m' c, creds m' = some c → m' ∈ members := by
  rw [Keyspace.sadd]
  generalize hidx : r.find now key = idx at h
  cases h with
  | absent h =>
    refine ⟨[m],none,?_,List.mem_cons_self,fun m' c hc => by simp [h m'] at hc⟩
    simp only [Keyspace.find_put,if_true]
    rfl
  | present members expiresAt h =>
    have halive := Keyspace.alive_of_find hidx
    by_cases hm : m ∈ members
    · refine ⟨members,some expiresAt,?_,hm,fun m' c hc => (h m' c hc).1⟩
      simp only [Keyspace.find_put,if_true,if_pos (mem_texts.mpr hm)]
      exact Option.filter_some_pos halive
    · refine ⟨members ++ [m],some expiresAt,?_,by simp,fun m' c hc => List.mem_append_left _ (h m' c hc).1⟩
      simp only [Keyspace.find_put,if_true,if_neg (mt mem_texts.mp hm),List.map_append,List.map_singleton]
      exact Option.filter_some_pos halive

theorem redis_store (hpos : 0 < ttl) (h : RedisHold box ttl now r v) (s m : UuidText) (address : JsString) {password : JsString}
    (nonce : ν) : RedisHold box ttl now (Redis.store ttl r now s.text m.text address (box.sealSecret nonce password))
      (v.set s m (some ⟨address,password,now + ttl⟩)) := by
  have hunsealed : (⟨address,password,now + ttl⟩ : Credential) =
      box.unseal ⟨address,box.sealSecret nonce password,now + ttl⟩ := by
    rw [Secretbox.unseal,box.open_seal]
  have hset : ∀ key, (Keyspace.setEx r now (credKey s.text m.text) (.string ⟨address,box.sealSecret nonce password⟩) ttl).find
      now key = if key = credKey s.text m.text then some (credEntry ⟨address,box.sealSecret nonce password,now + ttl⟩)
        else r.find now key := fun key => r.find_setEx now _ _ hpos key
  have hindex := hset (idxKey s.text)
  rw [if_neg (Ne.symm credKey_ne_idxKey)] at hindex
  obtain ⟨members,expiresAt,hsadd,hm,hmembers⟩ := Indexed.sadd (hindex ▸ h.index s) m
  rw [hunsealed]
  refine h.refresh hpos rfl (fun s' m' => ?_) (fun s' hs => ?_) ?_ hmembers hm
  · rw [Redis.store,Keyspace.find_expire _ _ _ hpos,if_neg credKey_ne_idxKey,Keyspace.find_sadd_ne _ _ _ credKey_ne_idxKey,hset]
    simp only [credKey_inj]
  · have hkey : idxKey s'.text ≠ idxKey s.text := fun hkey => hs (idxKey_inj.mp hkey)
    rw [Redis.store,Keyspace.find_expire _ _ _ hpos,if_neg hkey,Keyspace.find_sadd_ne _ _ _ hkey,hset,
      if_neg (Ne.symm credKey_ne_idxKey)]
  · rw [Redis.store,Keyspace.find_expire _ _ _ hpos,if_pos rfl,hsadd]
    rfl

theorem redis_get (hpos : 0 < ttl) (h : RedisHold box ttl now r v) (s m : UuidText) {redisNonce settingsNonce : ν} :
    RedisHold box ttl now (Redis.get ttl r now box.openSealed s.text m.text).1
      (vaultStep ttl v ⟨now,.get s m,redisNonce,settingsNonce⟩).1 ∧
    (Redis.get ttl r now box.openSealed s.text m.text).2 =
      (vaultStep ttl v ⟨now,.get s m,redisNonce,settingsNonce⟩).2 := by
  obtain ⟨value,hentry,hcred⟩ := h.creds s m
  simp only [vaultStep,Redis.get,Keyspace.get]
  cases value with
  | none =>
    rw [Option.map_none] at hentry hcred
    simp only [hentry,← hcred]
    exact ⟨h,trivial⟩
  | some value =>
    rw [Option.map_some] at hentry hcred
    simp only [hentry,← hcred,credEntry]
    refine ⟨?_,rfl⟩
    have hidx := h.index s
    generalize hindex : r.find now (idxKey s.text) = idx at hidx
    cases hidx with
    | absent hnone => simp [hnone m] at hcred
    | present members expiresAt hmembers =>
      have hexpire : ∀ key, key ≠ idxKey s.text → ((Keyspace.expire r now (credKey s.text m.text) ttl).expire now (idxKey s.text)
          ttl).find now key = if key = credKey s.text m.text then some (credEntry ⟨value.address,value.sealed,now + ttl⟩)
            else r.find now key := by
        intro key hkey
        rw [Keyspace.find_expire _ _ _ hpos,if_neg hkey,Keyspace.find_expire _ _ _ hpos,hentry]
        rfl
      change RedisHold box ttl now _ (v.set s m (some (box.unseal ⟨value.address,value.sealed,now + ttl⟩)))
      refine h.refresh hpos rfl (fun s' m' => ?_) (fun s' hs => ?_) ?_
        (fun m' c hc => (hmembers m' c hc).1) (hmembers m _ hcred.symm).1
      · rw [hexpire _ credKey_ne_idxKey]
        simp only [credKey_inj]
      · rw [hexpire _ fun hkey => hs (idxKey_inj.mp hkey),if_neg (Ne.symm credKey_ne_idxKey)]
      · rw [Keyspace.find_expire _ _ _ hpos,if_pos rfl,Keyspace.find_expire _ _ _ hpos,if_neg (Ne.symm credKey_ne_idxKey),hindex]
        rfl

/-- A credential is taken out, and its mailbox out of the index. -/
theorem Indexed.srem {creds creds' : UuidText → Option Credential} (h : Indexed creds (r.find now key)) (m : UuidText)
    (hm : creds' m = none) (hsame : ∀ m', m' ≠ m → creds' m' = creds m') :
    Indexed creds' ((Keyspace.srem r now key m.text).find now key) := by
  have hold : ∀ m' c, creds' m' = some c → m' ≠ m ∧ creds m' = some c := by
    intro m' c hc
    have hne : m' ≠ m := by
      rintro rfl
      simp [hm] at hc
    exact ⟨hne,hsame m' hne ▸ hc⟩
  rw [Keyspace.srem]
  generalize hidx : r.find now key = idx at h
  cases h with
  | absent h =>
    simp only [hidx]
    refine .absent fun m' => Option.eq_none_iff_forall_ne_some.mpr fun c hc => ?_
    obtain ⟨-,hc⟩ := hold m' c hc
    simp [h m'] at hc
  | present members expiresAt h =>
    have halive := Keyspace.alive_of_find hidx
    have hleft : (members.map UuidText.text).filter (· ≠ m.text) = (members.filter (· ≠ m)).map UuidText.text := by
      rw [List.filter_map]
      congr 1
      refine List.filter_congr fun m' _ => ?_
      simp [UuidText.text_inj]
    simp only [Keyspace.find_put,if_true,hleft]
    cases hempty : (members.filter (· ≠ m)) with
    | nil =>
      refine .absent fun m' => Option.eq_none_iff_forall_ne_some.mpr fun c hc => ?_
      obtain ⟨hne,hc⟩ := hold m' c hc
      exact List.filter_eq_nil_iff.mp hempty m' (h m' c hc).1 (decide_eq_true hne)
    | cons first left =>
      rw [← hempty]
      have hput : (if ((members.filter (· ≠ m)).map UuidText.text).isEmpty then none
          else some ⟨.set ((members.filter (· ≠ m)).map UuidText.text),some expiresAt⟩ : Option (Entry (Stored RedisPayload JsString))) =
          some ⟨.set ((members.filter (· ≠ m)).map UuidText.text),some expiresAt⟩ := by
        rw [hempty]
        rfl
      rw [Entry.alive_some] at halive
      rw [hput,Option.filter_some_pos (by rw [Entry.alive_some]; exact halive)]
      refine .present _ expiresAt fun m' c hc => ?_
      obtain ⟨hne,hc⟩ := hold m' c hc
      obtain ⟨hmem,hle⟩ := h m' c hc
      exact ⟨List.mem_filter.mpr ⟨hmem,decide_eq_true hne⟩,hle⟩

theorem redis_remove (h : RedisHold box ttl now r v) (s m : UuidText) :
    RedisHold box ttl now (Redis.remove r now s.text m.text) (v.set s m none) := by
  have hdel : ∀ s', (Keyspace.del r [credKey s.text m.text]).find now (idxKey (UuidText.text s')) = r.find now (idxKey s'.text) := by
    intro s'
    rw [Keyspace.find_del,if_neg]
    intro hmem
    exact credKey_ne_idxKey (List.mem_singleton.mp hmem).symm
  refine ⟨fun s' m' => ?_,fun s' => ?_,fun s' m' c hc => ?_⟩
  · rw [Redis.remove,Keyspace.find_srem_ne _ _ _ credKey_ne_idxKey,Keyspace.find_del,Vault.find_set]
    simp only [List.mem_singleton,credKey_inj]
    split
    · exact ⟨none,rfl,rfl⟩
    · exact h.creds s' m'
  · by_cases hs : s' = s
    · subst hs
      refine Indexed.srem (hdel s' ▸ h.index s') m ?_ fun m' hne => ?_
      · rw [Vault.find_set,if_pos ⟨rfl,rfl⟩]
        rfl
      · rw [Vault.find_set,if_neg fun heq => hne heq.2]
    · rw [Redis.remove,Keyspace.find_srem_ne _ _ _ fun hkey => hs (idxKey_inj.mp hkey),hdel,Vault.find_set_ne v now hs]
      exact h.index s'
  · rw [Vault.find_set] at hc
    split at hc
    · simp at hc
    · exact h.bounded s' m' c hc

/-- `SMEMBERS` of the index of a session. -/
theorem Indexed.smembers (h : Indexed creds (r.find now key)) :
    ∃ members : List UuidText, Keyspace.smembers r now key = some (members.map UuidText.text) ∧
      ∀ m c, creds m = some c → m ∈ members := by
  rw [Keyspace.smembers]
  generalize r.find now key = idx at h
  cases h with
  | absent hnone => exact ⟨[],rfl,fun m c hc => by simp [hnone m] at hc⟩
  | present members expiresAt hmembers => exact ⟨members,rfl,fun m c hc => (hmembers m c hc).1⟩

section PurgedKeys
variable {s s' m : UuidText} {members : List UuidText}

/-- The keys that `purgeSession` deletes. -/
theorem credKey_mem_purged : credKey s'.text m.text ∈ (members.map UuidText.text).map (credKey s.text) ++ [idxKey s.text] ↔
    s' = s ∧ m ∈ members := by
  simp only [List.mem_append,List.mem_map,List.mem_singleton,credKey_ne_idxKey,or_false,exists_exists_and_eq_and,credKey_inj]
  constructor
  · rintro ⟨m',hmem,rfl,rfl⟩
    exact ⟨rfl,hmem⟩
  · rintro ⟨rfl,hmem⟩
    exact ⟨m,hmem,rfl,rfl⟩

theorem idxKey_mem_purged : idxKey s'.text ∈ (members.map UuidText.text).map (credKey s.text) ++ [idxKey s.text] ↔ s' = s := by
  simp only [List.mem_append,List.mem_map,List.mem_singleton,exists_exists_and_eq_and,credKey_ne_idxKey,and_false,
    exists_false,false_or,idxKey_inj]

end PurgedKeys

/-- The deletion of keys among which are those of every live credential of the session. -/
theorem RedisHold.del (h : RedisHold box ttl now r v) (s : UuidText)
    (hlisted : ∀ m c, v.find now s m = some c → m ∈ members) :
    RedisHold box ttl now (Keyspace.del r ((members.map UuidText.text).map (credKey s.text) ++ [idxKey s.text])) (v.forget s) := by
  refine ⟨fun s' m' => ?_,fun s' => ?_,fun s' m' c hc => ?_⟩
  · simp only [Keyspace.find_del,Vault.find_forget,credKey_mem_purged]
    by_cases hs : s' = s
    · subst hs
      by_cases hmem : m' ∈ members
      · exact ⟨none,by simp [hmem],by simp⟩
      · obtain ⟨value,hentry,hcred⟩ := h.creds s' m'
        cases value with
        | none => exact ⟨none,by simpa [hmem] using hentry,by simp⟩
        | some value => exact absurd (hlisted m' _ hcred.symm) hmem
    · simpa [hs] using h.creds s' m'
  · have hfind : Vault.find (v.forget s) now s' = if s' = s then fun _ => none else v.find now s' := by
      funext m'
      rw [Vault.find_forget]
      split
      · rfl
      · rfl
    simp only [Keyspace.find_del,idxKey_mem_purged,hfind]
    split
    · exact .absent fun _ => rfl
    · exact h.index s'
  · rw [Vault.find_forget] at hc
    split at hc
    · simp at hc
    · exact h.bounded s' m' c hc

/-- The index leads `purgeSession` to every live credential of the session. -/
theorem redis_purgeSession (h : RedisHold box ttl now r v) (s : UuidText) :
    RedisHold box ttl now (Redis.purgeSession r now s.text).1 (v.forget s) ∧ (Redis.purgeSession r now s.text).2 = .done := by
  obtain ⟨members,hsmembers,hlisted⟩ := (h.index s).smembers
  rw [Redis.purgeSession,hsmembers]
  exact ⟨h.del s hlisted,rfl⟩

/-- Redis carries out the abstract store, and replies as it does. -/
theorem redis_step (hpos : 0 < ttl) (h : RedisHold box ttl now r v) (c : TimedCall ν) (hle : now ≤ c.time) :
    RedisHold box ttl c.time (redisStep ttl box r c).1 (vaultStep ttl v c).1 ∧
      (redisStep ttl box r c).2 = (vaultStep ttl v c).2 := by
  obtain ⟨time,call,redisNonce,settingsNonce⟩ := c
  have h : RedisHold box ttl time r v := h.mono hle
  cases call with
  | store s m address password => exact ⟨redis_store hpos h s m address redisNonce,rfl⟩
  | get s m => exact redis_get hpos h s m
  | remove s m => exact ⟨redis_remove h s m,rfl⟩
  | purgeSession s => exact redis_purgeSession h s
  | sweepExpired => exact ⟨h,rfl⟩

theorem settingsHold_empty : SettingsHold box 0 Table.empty fun _ _ => none := fun _ _ => rfl

theorem redisHold_empty : RedisHold box ttl 0 Keyspace.empty fun _ _ => none :=
  ⟨fun _ _ => ⟨none,rfl,rfl⟩,fun _ => .absent fun _ => rfl,fun _ _ _ hc => by simp [Vault.find] at hc⟩

/-- Whatever calls are made, at times that never go back, both backends give the same
replies. -/
theorem backends_agree (box : Secretbox ν) (hpos : 0 < ttl) (calls : List (TimedCall ν))
    (hordered : (calls.map TimedCall.time).Pairwise (· ≤ ·)) :
    replies (redisStep ttl box) Keyspace.empty calls = replies (settingsStep ttl box) Table.empty calls := by
  have hclock : (0 :: calls.map TimedCall.time).Pairwise (· ≤ ·) :=
    List.pairwise_cons.mpr ⟨fun time _ => Nat.zero_le time,hordered⟩
  have hredis : replies (redisStep ttl box) Keyspace.empty calls = replies (vaultStep ttl) (fun _ _ => none) calls :=
    replies_eq TimedCall.time (RedisHold box ttl) (fun _ _ _ c h hle => redis_step hpos h c hle) redisHold_empty hclock
  have hsettings : replies (settingsStep ttl box) Table.empty calls = replies (vaultStep ttl) (fun _ _ => none) calls :=
    replies_eq TimedCall.time (SettingsHold box) (fun _ _ _ c h hle => settings_step hpos h c hle) settingsHold_empty hclock
  rw [hredis,hsettings]

def sealedPassword : UInt8 → JsString
  | 0 => js "AAAAAAAAAAAAAAAA.vtA.md95pVXGmTEmdHNnwn4neA"
  | _ => js "AQEBAQEBAQEBAQEB.BTc.ouvr7ymQFLJdIIXFXQyIJw"

/-- AES-256-GCM with a key of zeros, on the password `pw` and an IV of twelve times the
nonce, for the nonces 0 and 1. -/
def sampleBox : Secretbox UInt8 where
  sealSecret nonce plaintext := if plaintext = js "pw" ∧ nonce < 2 then sealedPassword nonce else unit '.' :: plaintext
  openSealed sealed := if sealed = sealedPassword 0 ∨ sealed = sealedPassword 1 then js "pw" else sealed.tail
  open_seal nonce plaintext := by
    have hother : unit '.' :: plaintext ≠ sealedPassword 0 ∧ unit '.' :: plaintext ≠ sealedPassword 1 := by
      refine ⟨fun h => ?_,fun h => ?_⟩
      · exact absurd (congrArg List.head? h) (by rw [List.head?_cons]; decide)
      · exact absurd (congrArg List.head? h) (by rw [List.head?_cons]; decide)
    by_cases h : plaintext = js "pw" ∧ nonce < 2
    · rw [if_pos h,if_pos]
      · exact h.1.symm
      · rw [sealedPassword.eq_def]
        split
        · exact .inl rfl
        · exact .inr rfl
    · rw [if_neg h,if_neg (by simp [hother]),List.tail_cons]

def sampleId : UuidText := ⟨js "00000000-0000-4000-8000-000000000001",by decide,by decide⟩

/-- The password expires ten seconds after its last use, in both backends. -/
def sampleCalls : List (TimedCall UInt8) :=
  [⟨0,.store sampleId sampleId (js "a@ex.com") (js "pw"),0,1⟩,⟨9,.get sampleId sampleId,0,0⟩,⟨18,.get sampleId sampleId,0,0⟩,
    ⟨28,.get sampleId sampleId,0,0⟩]

theorem backends_agree_expiry :
    replies (redisStep 10 sampleBox) Keyspace.empty sampleCalls =
      [.done,.creds (some ⟨js "a@ex.com",js "pw"⟩),.creds (some ⟨js "a@ex.com",js "pw"⟩),.creds none] ∧
    replies (redisStep 10 sampleBox) Keyspace.empty sampleCalls =
      replies (settingsStep 10 sampleBox) Table.empty sampleCalls :=
  ⟨by decide +kernel,backends_agree sampleBox (by decide) sampleCalls (by decide)⟩

end Redis
end JustMail.Webmail
