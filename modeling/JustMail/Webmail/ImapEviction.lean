import JustMail.Webmail.ImapOwnership

/-! What sweeping and eviction take from the pool: slots and clients that no call uses,
until the pool is within its bound. -/
namespace JustMail.Webmail
open Foundation

section Trim
variable {cfg : PoolConfig} {s t u : ImapPool}

/-- A step closes the client, or logs it out. -/
def Closes (s t : ImapPool) (c : Nat) : Prop := (s.clients c).status ≠ .released ∧ (t.clients c).status = .released

/-- What eviction and sweeping leave: entries lose no more than their client, and only
those without calls do. -/
structure Trimmed (s t : ImapPool) : Prop where
  entries : ∀ e, t.entries e = { s.entries e with client := (t.entries e).client }
  client : ∀ e c, (t.entries e).client = some c → (s.entries e).client = some c
  owner : ∀ c, (t.clients c).entry = (s.clients c).entry
  closes : ∀ c, Closes s t c → ∃ e, (s.entries e).client = some c ∧ (s.entries e).inUse = 0
  slots : ∀ slot ∈ s.pool.rows, 0 < (s.entries slot.entry).inUse → slot ∈ t.pool.rows
  length : t.pool.rows.length ≤ s.pool.rows.length

theorem Trimmed.refl (s : ImapPool) : Trimmed s s :=
  ⟨fun _ => rfl,fun _ _ hc => hc,fun _ => rfl,fun _ hc => absurd hc.2 hc.1,fun _ hslot _ => hslot,le_rfl⟩

theorem Trimmed.inUse (h : Trimmed s t) (e : Nat) : (t.entries e).inUse = (s.entries e).inUse := by
  rw [h.entries e]

theorem Trimmed.trans (h : Trimmed s t) (hu : Trimmed t u) : Trimmed s u := by
  refine ⟨fun e => ?_,fun e c hc => h.client e c (hu.client e c hc),fun c => (hu.owner c).trans (h.owner c),fun c hc => ?_,
    fun slot hslot hbusy => ?_,hu.length.trans h.length⟩
  · rw [hu.entries e,h.entries e]
  · by_cases hreleased : (t.clients c).status = .released
    · exact h.closes c ⟨hc.1,hreleased⟩
    · obtain ⟨e,hclient,hidle⟩ := hu.closes c ⟨hreleased,hc.2⟩
      exact ⟨e,h.client e c hclient,(h.inUse e).symm.trans hidle⟩
  · refine hu.slots slot (h.slots slot hslot hbusy) ?_
    rw [h.inUse]
    exact hbusy

theorem closeEntry_status (e c : Nat) : ((s.closeEntry e).clients c).entry = (s.clients c).entry ∧
    (Closes s (s.closeEntry e) c → (s.entries e).client = some c) := by
  rw [ImapPool.closeEntry]
  split
  · exact ⟨rfl,fun hc => absurd hc.2 hc.1⟩
  · rename_i k hk
    refine ⟨by rw [ImapPool.setStatus_entry]; rfl,fun hc => ?_⟩
    have hreleased := hc.2
    rw [ImapPool.setStatus_status] at hreleased
    split at hreleased
    · rename_i hck
      rw [hck]
      exact hk
    · exact absurd hreleased hc.1

theorem trimmed_drop {slot : PoolSlot} (hslot : ∀ slot' ∈ s.pool.rows, slot'.key = slot.key → slot' = slot)
    (hidle : (s.entries slot.entry).inUse = 0) : Trimmed s (s.drop slot) := by
  refine ⟨closeEntry_entry slot.entry,fun e c hc => ?_,fun c => (closeEntry_status slot.entry c).1,
    fun c hc => ⟨slot.entry,(closeEntry_status slot.entry c).2 hc,hidle⟩,fun slot' hslot' hbusy => ?_,?_⟩
  · have hclient : ((s.closeEntry slot.entry).entries e).client = some c := hc
    rw [closeEntry_client] at hclient
    split at hclient
    · simp at hclient
    · exact hclient
  · refine ((s.closeEntry slot.entry).mem_deleteKey slot.key).mpr ⟨by rwa [closeEntry_pool],fun hkey => ?_⟩
    rw [hslot slot' hslot' hkey,hidle] at hbusy
    exact Nat.lt_irrefl 0 hbusy
  · refine (List.length_filter_le _ _).trans ?_
    rw [closeEntry_pool]

theorem ImapPool.Lists.drop {slot : PoolSlot} {slots : List PoolSlot} (h : s.Lists slots) : (s.drop slot).Lists slots := by
  intro slot' hslot' other hother
  have hmem := ((ImapPool.mem_deleteKey _ _).mp hother).1
  rw [closeEntry_pool] at hmem
  exact h slot' hslot' other hmem

theorem trimmed_evictFrom (cfg : PoolConfig) (current : JsString) (slots : List PoolSlot) (hslots : s.Lists slots) :
    Trimmed s (ImapPool.evictFrom cfg current s slots) := by
  induction slots generalizing s with
  | nil => exact .refl s
  | cons slot slots ih =>
    rw [ImapPool.evictFrom]
    split
    · exact .refl s
    · split
      · exact ih hslots.tail
      · rename_i hkeep
        push Not at hkeep
        exact (trimmed_drop (hslots slot List.mem_cons_self) (Nat.le_zero.mp hkeep.2)).trans (ih hslots.tail.drop)

theorem trimmed_sweep (cfg : PoolConfig) (now : Nat) (slots : List PoolSlot) (hslots : s.Lists slots) :
    Trimmed s (slots.foldl (fun s slot => if (s.entries slot.entry).inUse = 0 ∧
      (s.entries slot.entry).lastUsed + cfg.idleTtlMs < now then s.drop slot else s) s) := by
  induction slots generalizing s with
  | nil => exact .refl s
  | cons slot slots ih =>
    rw [List.foldl_cons]
    split
    · rename_i hidle
      exact (trimmed_drop (hslots slot List.mem_cons_self) hidle.1).trans (ih hslots.tail.drop)
    · exact ih hslots.tail

/-- Slots that all have one key are one slot at most. -/
theorem length_le_one {key : JsString} (h : ∀ slot ∈ s.pool.rows, slot.key = key) : s.pool.rows.length ≤ 1 := by
  have hkeys : s.pool.rows.map PoolSlot.key = List.replicate s.pool.rows.length key := by
    rw [List.map_eq_replicate_iff.mpr h]
  have hunique := s.pool.unique
  rw [hkeys] at hunique
  exact List.nodup_replicate.mp hunique

/-- Where nobody uses an entry, eviction stops at the bound or at the current slot. -/
theorem evictFrom_length (cfg : PoolConfig) (current : JsString) (slots : List PoolSlot)
    (hidle : ∀ slot ∈ slots, (s.entries slot.entry).inUse = 0)
    (hrows : ∀ slot ∈ s.pool.rows, slot ∈ slots ∨ slot.key = current) :
    (ImapPool.evictFrom cfg current s slots).pool.rows.length ≤ max 1 cfg.poolMax := by
  induction slots generalizing s with
  | nil =>
    have hcurrent : ∀ slot ∈ s.pool.rows, slot.key = current := fun slot hslot => (hrows slot hslot).resolve_left List.not_mem_nil
    exact (length_le_one hcurrent).trans (Nat.le_max_left _ _)
  | cons slot slots ih =>
    have hrest : ∀ slot' ∈ slots, (s.entries slot'.entry).inUse = 0 := fun slot' hslot' =>
      hidle slot' (List.mem_cons_of_mem slot hslot')
    rw [ImapPool.evictFrom]
    split
    · rename_i hle
      exact hle.trans (Nat.le_max_right _ _)
    · split
      · rename_i hkeep
        have hcurrent : slot.key = current := by
          rcases hkeep with hkey | hbusy
          · exact hkey
          · rw [hidle slot List.mem_cons_self] at hbusy
            exact absurd hbusy (Nat.lt_irrefl 0)
        refine ih hrest fun slot' hslot' => ?_
        rcases hrows slot' hslot' with hmem | hkey
        · rcases List.mem_cons.mp hmem with rfl | hmem
          · exact .inr hcurrent
          · exact .inl hmem
        · exact .inr hkey
      · refine ih (fun slot' hslot' => ?_) fun slot' hslot' => ?_
        · have hentry := closeEntry_entry (s := s) slot.entry slot'.entry
          change ((s.closeEntry slot.entry).entries slot'.entry).inUse = 0
          rw [hentry]
          exact hrest slot' hslot'
        · obtain ⟨hmem,hkey⟩ := (ImapPool.mem_deleteKey _ _).mp hslot'
          rw [closeEntry_pool] at hmem
          rcases hrows slot' hmem with hmem | hcurrent
          · exact .inl ((List.mem_cons.mp hmem).resolve_left fun heq => hkey (by rw [heq]))
          · exact .inr hcurrent

end Trim

section Discipline
variable {cfg : PoolConfig} {s t : ImapPool} {e : Nat} {f : PoolEntry → PoolEntry}

/-- An entry with calls is in the pool, and clients know the entry they are kept in. -/
structure Held (s : ImapPool) : Prop where
  inv : PoolInv s
  busy : ∀ e, 0 < (s.entries e).inUse → s.InPool e
  client : ∀ e c, (s.entries e).client = some c → (s.clients c).entry = e

/-- The bound on the size, for a pool that nobody uses. -/
def Bounded (cfg : PoolConfig) (s : ImapPool) : Prop :=
  (∀ e, (s.entries e).inUse = 0) → s.pool.rows.length ≤ max 1 cfg.poolMax

/-- One call at a time works on a key: entries with the same key that have calls are one. -/
theorem Held.unique (h : Held s) {e e' : Nat} (he : 0 < (s.entries e).inUse) (he' : 0 < (s.entries e').inUse)
    (hkey : (s.entries e).key = (s.entries e').key) : e = e' := by
  obtain ⟨slot,hslot,rfl⟩ := h.busy e he
  obtain ⟨slot',hslot',rfl⟩ := h.busy e' he'
  rw [(h.inv.slots slot hslot).2,(h.inv.slots slot' hslot').2] at hkey
  rw [Table.eq_of_key hslot hslot' hkey]

theorem Held.modify (h : Held s) (hinv : PoolInv (s.modify e f)) (hinUse : (f (s.entries e)).inUse ≤ (s.entries e).inUse)
    (hclient : (f (s.entries e)).client = (s.entries e).client) : Held (s.modify e f) := by
  refine ⟨hinv,fun k hk => ?_,fun k c hc => ?_⟩
  · by_cases hke : k = e
    · subst hke
      rw [s.modify_self] at hk
      exact h.busy k (hk.trans_le hinUse)
    · rw [s.modify_ne e f hke] at hk
      exact h.busy k hk
  · by_cases hke : k = e
    · subst hke
      rw [s.modify_self,hclient] at hc
      exact h.client k c hc
    · rw [s.modify_ne e f hke] at hc
      exact h.client k c hc

theorem Bounded.modify (h : Bounded cfg s) (hinUse : (f (s.entries e)).inUse = (s.entries e).inUse) :
    Bounded cfg (s.modify e f) := by
  intro hidle
  refine h fun k => ?_
  have hk := hidle k
  by_cases hke : k = e
  · subst hke
    rw [s.modify_self,hinUse] at hk
    exact hk
  · rw [s.modify_ne e f hke] at hk
    exact hk

theorem Held.trim (h : Held s) (hinv : PoolInv t) (htrim : Trimmed s t) : Held t := by
  refine ⟨hinv,fun k hk => ?_,fun k c hc => ?_⟩
  · rw [htrim.inUse] at hk
    obtain ⟨slot,hslot,rfl⟩ := h.busy k hk
    exact ⟨slot,htrim.slots slot hslot hk,rfl⟩
  · rw [htrim.owner]
    exact h.client k c (htrim.client k c hc)

theorem held_entryFor (key : JsString) (now : Nat) (h : Held s) : Held (s.entryFor key now).1 := by
  have hinv := (poolInv_entryFor key now h.inv).1
  rw [ImapPool.entryFor] at hinv ⊢
  split at hinv
  · exact h
  · refine ⟨hinv,fun k hk => ?_,fun k c hc => ?_⟩
    · dsimp only at hk
      split at hk
      · exact absurd hk (Nat.lt_irrefl 0)
      · exact h.busy k hk
    · dsimp only at hc
      split at hc
      · simp at hc
      · exact h.client k c hc

theorem entryFor_clients (key : JsString) (now : Nat) : (s.entryFor key now).1.clients = s.clients := by
  rw [ImapPool.entryFor]
  split <;> rfl

theorem enqueue_self (key : JsString) : (s.enqueue key e).entries e =
    { s.entries e with inUse := (s.entries e).inUse + 1, chain := (s.entries e).chain ++ [.queued] } := if_pos rfl

theorem enqueue_ne (key : JsString) {k : Nat} (h : k ≠ e) : (s.enqueue key e).entries k = s.entries k := if_neg h

theorem held_enqueue {key : JsString} (h : Held s) (hinv : PoolInv (s.enqueue key e))
    (hslots : ∀ slot ∈ s.pool.rows, slot.key = key → slot.entry = e) : Held (s.enqueue key e) := by
  refine ⟨hinv,fun k hk => ?_,fun k c hc => ?_⟩
  · by_cases hke : k = e
    · exact ⟨⟨key,e⟩,Table.mem_reinsert.mpr (.inr rfl),hke.symm⟩
    · rw [enqueue_ne key hke] at hk
      obtain ⟨slot,hslot,rfl⟩ := h.busy k hk
      exact ⟨slot,Table.mem_reinsert.mpr (.inl ⟨hslot,fun hsame => hke (hslots slot hslot hsame)⟩),rfl⟩
  · refine h.client k c ?_
    by_cases hke : k = e
    · subst hke
      rw [enqueue_self] at hc
      exact hc
    · rw [enqueue_ne key hke] at hc
      exact hc

theorem held_connect {now : Nat} {rest : List OpPhase} (h : Held s) (hinv : PoolInv (s.connect e now rest)) :
    Held (s.connect e now rest) := by
  have hinUse : ∀ k, ((s.connect e now rest).entries k).inUse = (s.entries k).inUse := by
    intro k
    by_cases hke : k = e
    · rw [hke,connect_self]
    · rw [connect_ne hke]
  refine ⟨hinv,fun k hk => ?_,fun k c hc => ?_⟩
  · rw [hinUse] at hk
    exact h.busy k hk
  · by_cases hke : k = e
    · subst hke
      rw [connect_self] at hc
      rw [← Option.some.inj hc]
      exact congrArg ImapClient.entry (if_pos rfl)
    · rw [connect_ne hke] at hc
      have hne : c ≠ s.nextClient := ((h.inv.entries k).client c hc).ne
      exact (congrArg ImapClient.entry (if_neg hne)).trans (h.client k c hc)

/-- The pool after a call has left: nobody's client is closed, and the bound is met once
nobody is left. -/
theorem finish_trims {settling now : Nat} (cfg : PoolConfig) (current : JsString) (h : Held s)
    (hsettling : (s.entries e).settling = settling + 1) :
    ∃ m, Held m ∧ (∀ k, (m.entries k).chain = (s.entries k).chain) ∧ Trimmed m (m.evictOverCap cfg current) ∧
      Bounded cfg (m.evictOverCap cfg current) ∧
      m = s.modify e fun x => { x with inUse := x.inUse - 1, lastUsed := now, settling := settling } := by
  obtain ⟨htail,hinUse,hclient,hconnecting⟩ := h.inv.entries e
  rw [hsettling] at hinUse
  have he : e < s.nextEntry := h.inv.allocated (.inr (by simp [hsettling]))
  have hinv : PoolInv (s.modify e fun x => { x with inUse := x.inUse - 1, lastUsed := now, settling := settling }) := by
    refine h.inv.modify he rfl (fun _ _ hc => hc) (h.inv.waiting e) ⟨htail,?_,hclient,hconnecting⟩
    simp only
    omega
  refine ⟨_,h.modify hinv (Nat.sub_le _ _) rfl,fun k => ?_,trimmed_evictFrom cfg current _ (ImapPool.lists_rows _),?_,rfl⟩
  · by_cases hke : k = e
    · rw [hke,s.modify_self]
    · rw [s.modify_ne e _ hke]
  · intro hidle
    refine evictFrom_length cfg current _ (fun slot _ => ?_) fun slot hslot => .inl hslot
    rw [← (trimmed_evictFrom cfg current _ (ImapPool.lists_rows _)).inUse]
    exact hidle slot.entry

/-- A client that eviction or sweeping closes has an entry without calls. -/
theorem Held.closed_idle (h : Held s) (htrim : Trimmed s t) {c : Nat} (hc : Closes s t c) :
    (s.entries (s.clients c).entry).chain = [] := by
  obtain ⟨k,hclient,hidle⟩ := htrim.closes c hc
  rw [h.client k c hclient]
  have hinUse := (h.inv.entries k).inUse
  exact List.eq_nil_of_length_eq_zero (by omega)

/-- What one step without a purge keeps, and which clients it may close. -/
structure Disciplined (cfg : PoolConfig) (s t : ImapPool) : Prop where
  held : Held t
  bounded : Bounded cfg t
  closes : ∀ c, Closes s t c → (s.entries (s.clients c).entry).chain = []

theorem not_closes {c : Nat} (h : (t.clients c).status = (s.clients c).status) : ¬Closes s t c := by
  rintro ⟨hopen,hreleased⟩
  exact hopen (h.symm.trans hreleased)

/-- A change of one entry that leaves its client and its calls in use. -/
theorem disciplined_modify (h : Held s) (hb : Bounded cfg s) (hinv : PoolInv (s.modify e f))
    (hinUse : (f (s.entries e)).inUse = (s.entries e).inUse) (hclient : (f (s.entries e)).client = (s.entries e).client) :
    Disciplined cfg s (s.modify e f) :=
  ⟨h.modify hinv hinUse.le hclient,hb.modify hinUse,fun _ hc => absurd hc (not_closes rfl)⟩

theorem disciplined_connect {e now : Nat} {rest : List OpPhase} (h : Held s) (hb : Bounded cfg s) (hinv : PoolInv (s.connect e now rest)) :
    Disciplined cfg s (s.connect e now rest) := by
  refine ⟨held_connect h hinv,fun hidle => hb fun k => ?_,fun c hc => ?_⟩
  · have hk := hidle k
    by_cases hke : k = e
    · subst hke
      rw [connect_self] at hk
      exact hk
    · rw [connect_ne hke] at hk
      exact hk
  · have hreleased := hc.2
    by_cases hnew : c = s.nextClient
    · rw [show (s.connect e now rest).clients c = ⟨e,.connected⟩ from if_pos hnew] at hreleased
      simp at hreleased
    · rw [show (s.connect e now rest).clients c = s.clients c from if_neg hnew] at hreleased
      exact absurd hreleased hc.1

theorem disciplined_lost {c : Nat} (h : Held s) (hb : Bounded cfg s) (hinv : PoolInv (s.setStatus c .lost)) :
    Disciplined cfg s (s.setStatus c .lost) := by
  refine ⟨⟨hinv,h.busy,fun k c' hc' => ?_⟩,hb,fun c' hc' => ?_⟩
  · rw [ImapPool.setStatus_entry]
    exact h.client k c' hc'
  · have hreleased := hc'.2
    rw [ImapPool.setStatus_status] at hreleased
    split at hreleased
    · simp at hreleased
    · exact absurd hreleased hc'.1

theorem disciplined_run (key : JsString) (now : Nat) (h : Held s) (hinv : PoolInv (s.run key now)) :
    Disciplined cfg s (s.run key now) := by
  obtain ⟨-,hpool,-,-,hslots⟩ := poolInv_entryFor key now h.inv
  rw [← hpool] at hslots
  refine ⟨held_enqueue (held_entryFor key now h) hinv hslots,fun hidle => ?_,fun c hc => absurd hc (not_closes ?_)⟩
  · have hbusy := hidle (s.entryFor key now).2
    rw [ImapPool.run,enqueue_self] at hbusy
    simp at hbusy
  · change ((s.entryFor key now).1.clients c).status = _
    rw [entryFor_clients]

theorem disciplined_step {a : PoolAction} (h : Held s) (hb : Bounded cfg s) (ha : ∀ sessionId, a ≠ .purgeSession sessionId)
    (hstep : poolStep cfg s a = some t) : Disciplined cfg s t := by
  have hquiet : PurgesQuiet s a := by
    cases a with
    | purgeSession sessionId => exact absurd rfl (ha sessionId)
    | _ => exact trivial
  have hinv : PoolInv t := (pool_step h.inv hquiet hstep).inv
  cases poolMoved_of_step hstep with
  | run sessionId mailboxId now => exact disciplined_run _ now h hinv
  | reuses hchain hclient => exact disciplined_modify h hb hinv rfl rfl
  | connects hchain hclient => exact disciplined_modify h hb hinv rfl rfl
  | connected hchain => exact disciplined_connect h hb hinv
  | rejected hchain => exact disciplined_modify h hb hinv rfl rfl
  | settled hchain => exact disciplined_modify h hb hinv rfl rfl
  | finished hsettling =>
    obtain ⟨m,hheld,hchain,htrim,hbounded,hm⟩ := finish_trims cfg _ h hsettling
    subst hm
    refine ⟨hheld.trim hinv htrim,hbounded,fun c hc => ?_⟩
    rw [← hchain]
    exact hheld.closed_idle htrim hc
  | purged sessionId => exact absurd rfl (ha sessionId)
  | swept now =>
    have htrim : Trimmed s (s.sweepIdle cfg now) := trimmed_sweep cfg now _ s.lists_rows
    refine ⟨h.trim hinv htrim,fun hidle => htrim.length.trans (hb fun k => ?_),fun c hc => h.closed_idle htrim hc⟩
    rw [← htrim.inUse]
    exact hidle k
  | lost husable => exact disciplined_lost h hb hinv

end Discipline

end JustMail.Webmail
