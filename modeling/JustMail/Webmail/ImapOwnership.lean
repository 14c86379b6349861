import JustMail.Webmail.ImapPool

/-! Which entry owns a connected client, and when the pool loses track of one. -/
namespace JustMail.Webmail
open Foundation

def OpPhase.isPending : OpPhase → Bool
  | .queued | .connecting => true
  | .running _ => false

/-- Some call on the entry has not been given its client yet. -/
def PoolEntry.waiting (x : PoolEntry) : Bool := x.chain.any OpPhase.isPending

def ImapPool.InPool (s : ImapPool) (e : Nat) : Prop := ∃ slot ∈ s.pool.rows, slot.entry = e

def ImapPool.Connected (s : ImapPool) (c : Nat) : Prop := (s.clients c).status = .connected

def ImapPool.Pooled (s : ImapPool) (c : Nat) : Prop := ∃ slot ∈ s.pool.rows, (s.entries slot.entry).client = some c

/-- No operation is running or queued. -/
def ImapPool.Settled (s : ImapPool) : Prop := ∀ e < s.nextEntry, (s.entries e).chain = []

def ImapPool.OfSession (s : ImapPool) (sessionId : JsString) (c : Nat) : Prop :=
  (imapPrefix sessionId).isPrefixOf (s.entries (s.clients c).entry).key = true

/-- A session is purged only while none of its calls is queued or connecting. -/
def PurgesQuiet (s : ImapPool) : PoolAction → Prop
  | .purgeSession sessionId => ∀ slot ∈ s.pool.rows, (imapPrefix sessionId).isPrefixOf slot.key = true →
    (s.entries slot.entry).waiting = false
  | _ => True

/-- No call of `run` for the session. -/
def NoRunFor (sessionId : JsString) : PoolAction → Prop
  | .run sessionId' mailboxId _ => (imapPrefix sessionId).isPrefixOf (imapKey sessionId' mailboxId) = false
  | _ => True

instance (s : ImapPool) : DecidablePred (PurgesQuiet s) := fun a =>
  match a with
  | .purgeSession sessionId => inferInstanceAs (Decidable (∀ slot ∈ s.pool.rows,
    (imapPrefix sessionId).isPrefixOf slot.key = true → (s.entries slot.entry).waiting = false))
  | .run _ _ _ | .start _ _ | .connected _ _ | .connectFailed _ | .settle _ | .finish _ _ | .sweepIdle _ | .lose _ => .isTrue trivial

section Invariant
variable {cfg : PoolConfig} {s t : ImapPool} {a : PoolAction} {f : PoolEntry → PoolEntry} {e : Nat}

/-- What holds of an entry, in the pool or dropped from it. -/
structure EntryInv (s : ImapPool) (x : PoolEntry) : Prop where
  tail : ∀ op ∈ x.chain.tail, op = .queued
  inUse : x.inUse = x.chain.length + x.settling
  client : ∀ c, x.client = some c → c < s.nextClient
  connecting : .connecting ∈ x.chain → ∀ c, x.client = some c → ¬s.Connected c

structure PoolInv (s : ImapPool) : Prop where
  owned : ∀ c, s.Connected c → (s.entries (s.clients c).entry).client = some c ∧ s.InPool (s.clients c).entry
  waiting : ∀ e, (s.entries e).waiting = true → s.InPool e
  entries : ∀ e, EntryInv s (s.entries e)
  slots : ∀ slot ∈ s.pool.rows, slot.entry < s.nextEntry ∧ (s.entries slot.entry).key = slot.key
  fresh : ∀ e, s.nextEntry ≤ e → (s.entries e).client = none ∧ (s.entries e).chain = [] ∧ (s.entries e).settling = 0
  unborn : ∀ c, s.nextClient ≤ c → ¬s.Connected c

/-- Where no new client is connected, an entry stays as good as it was. -/
theorem EntryInv.congr {x : PoolEntry} (h : EntryInv s x) (hnext : t.nextClient = s.nextClient)
    (hconnected : ∀ c, t.Connected c → s.Connected c) : EntryInv t x := by
  refine ⟨h.tail,h.inUse,fun c hc => ?_,fun hop c hc hconn => h.connecting hop c hc (hconnected c hconn)⟩
  rw [hnext]
  exact h.client c hc

theorem poolInv_initial : PoolInv .initial := by
  refine ⟨fun c hc => ?_,fun e he => ?_,fun e => ?_,fun slot hslot => ?_,fun e _ => ⟨rfl,rfl,rfl⟩,fun c _ hc => ?_⟩
  · simp [ImapPool.Connected,ImapPool.initial] at hc
  · simp [PoolEntry.waiting,ImapPool.initial] at he
  · refine ⟨?_,rfl,?_,?_⟩ <;> simp [ImapPool.initial]
  · exact absurd hslot List.not_mem_nil
  · simp [ImapPool.Connected,ImapPool.initial] at hc

/-- A change of one entry that keeps its key, and its client if that is connected. -/
theorem PoolInv.modify (h : PoolInv s) (he : e < s.nextEntry)
    (hkey : (f (s.entries e)).key = (s.entries e).key)
    (hclient : ∀ c, s.Connected c → (s.entries e).client = some c → (f (s.entries e)).client = some c)
    (hwaiting : (f (s.entries e)).waiting = true → s.InPool e) (hentry : EntryInv s (f (s.entries e))) :
    PoolInv (s.modify e f) := by
  refine ⟨fun c hc => ?_,fun k hk => ?_,fun k => ?_,fun slot hslot => ?_,fun k hk => ?_,h.unborn⟩
  · obtain ⟨howner,hpool⟩ := h.owned c hc
    refine ⟨?_,hpool⟩
    by_cases hk : (s.clients c).entry = e
    · rw [s.modify_clients,hk,s.modify_self]
      exact hclient c hc (hk ▸ howner)
    · rw [s.modify_clients,s.modify_ne e f hk]
      exact howner
  · by_cases hke : k = e
    · subst hke
      rw [s.modify_self] at hk
      exact hwaiting hk
    · rw [s.modify_ne e f hke] at hk
      exact h.waiting k hk
  · by_cases hke : k = e
    · rw [hke,s.modify_self]
      exact hentry.congr rfl fun _ hc => hc
    · rw [s.modify_ne e f hke]
      exact (h.entries k).congr rfl fun _ hc => hc
  · obtain ⟨hlt,hslotKey⟩ := h.slots slot hslot
    refine ⟨hlt,?_⟩
    by_cases hk : slot.entry = e
    · rw [hk,s.modify_self,hkey,← hk]
      exact hslotKey
    · rw [s.modify_ne e f hk]
      exact hslotKey
  · have hne : k ≠ e := (Nat.lt_of_lt_of_le he hk).ne'
    rw [s.modify_ne e f hne]
    exact h.fresh k hk

/-- Only connections that were there before are left. -/
theorem connected_of_setStatus {c k : Nat} {status : ClientStatus} (hstatus : status ≠ .connected)
    (h : (s.setStatus c status).Connected k) : k ≠ c ∧ s.Connected k := by
  rw [ImapPool.Connected,ImapPool.setStatus_status] at h
  split at h
  · exact absurd h hstatus
  · rename_i hk
    exact ⟨hk,h⟩

theorem poolInv_setStatus (h : PoolInv s) (c : Nat) {status : ClientStatus} (hstatus : status ≠ .connected) :
    PoolInv (s.setStatus c status) := by
  refine ⟨fun k hk => ?_,h.waiting,fun e => ?_,h.slots,h.fresh,fun k hk hconnected => ?_⟩
  · rw [ImapPool.setStatus_entry]
    exact h.owned k (connected_of_setStatus hstatus hk).2
  · exact (h.entries e).congr rfl fun k hk => (connected_of_setStatus hstatus hk).2
  · exact h.unborn k hk (connected_of_setStatus hstatus hconnected).2

section Close
variable (e : Nat)

theorem closeEntry_pool : (s.closeEntry e).pool = s.pool := by
  rw [ImapPool.closeEntry]
  split
  · rfl
  · rfl

theorem closeEntry_client (k : Nat) : ((s.closeEntry e).entries k).client = if k = e then none else (s.entries k).client := by
  rw [ImapPool.closeEntry]
  split
  · rename_i hnone
    split
    · rename_i hk
      rw [hk,hnone]
    · rfl
  · rw [ImapPool.setStatus_entries]
    split
    · rename_i hk
      rw [hk,s.modify_self]
    · rename_i hk
      rw [s.modify_ne e _ hk]

/-- Apart from its client, closing leaves an entry as it is. -/
theorem closeEntry_entry (k : Nat) : (s.closeEntry e).entries k = { s.entries k with client := ((s.closeEntry e).entries k).client } := by
  rw [ImapPool.closeEntry]
  split
  · rfl
  · rw [ImapPool.setStatus_entries]
    by_cases hk : k = e
    · rw [hk,s.modify_self]
    · rw [s.modify_ne e _ hk]

theorem poolInv_closeEntry (h : PoolInv s) : PoolInv (s.closeEntry e) := by
  rw [ImapPool.closeEntry]
  split
  · exact h
  · rename_i c hc
    have he : e < s.nextEntry := Nat.lt_of_not_le fun hle => by simp [(h.fresh e hle).1] at hc
    have hreleased : PoolInv (s.setStatus c .released) := poolInv_setStatus h c (by simp)
    obtain ⟨htail,hinUse,-,-⟩ := h.entries e
    change PoolInv ((s.setStatus c .released).modify e fun x => { x with client := none })
    refine hreleased.modify he rfl (fun k hk hclient => ?_) (h.waiting e) ⟨htail,hinUse,by simp,by simp⟩
    obtain rfl : c = k := Option.some.inj (hc.symm.trans hclient)
    exact absurd rfl (connected_of_setStatus (by simp) hk).1

/-- A slot of the map goes where its entry has no client and nobody waits. -/
theorem poolInv_deleteKey (h : PoolInv s) {key : JsString} (hgone : ∀ slot ∈ s.pool.rows, slot.key = key →
    (s.entries slot.entry).client = none ∧ (s.entries slot.entry).waiting = false) : PoolInv (s.deleteKey key) := by
  have hstays : ∀ k, s.InPool k → (s.entries k).client ≠ none ∨ (s.entries k).waiting = true → (s.deleteKey key).InPool k := by
    rintro k ⟨slot,hslot,rfl⟩ hused
    refine ⟨slot,(s.mem_deleteKey key).mpr ⟨hslot,fun hkey => ?_⟩,rfl⟩
    obtain ⟨hclient,hwaiting⟩ := hgone slot hslot hkey
    rcases hused with hne | hwaits
    · exact hne hclient
    · simp [hwaiting] at hwaits
  refine ⟨fun c hc => ?_,fun e he => hstays e (h.waiting e he) (.inr he),fun e => ?_,fun slot hslot => ?_,h.fresh,h.unborn⟩
  · obtain ⟨howner,hpool⟩ := h.owned c hc
    have hclient : (s.entries (s.clients c).entry).client ≠ none := by simp [howner]
    exact ⟨howner,hstays _ hpool (.inl hclient)⟩
  · exact (h.entries e).congr rfl fun _ hc => hc
  · exact h.slots slot ((s.mem_deleteKey key).mp hslot).1

end Close

section Loops
variable {slot : PoolSlot}

theorem closeEntry_waiting (e k : Nat) : ((s.closeEntry e).entries k).waiting = (s.entries k).waiting := by
  rw [closeEntry_entry]
  rfl

/-- An entry that is not in use has no calls on its chain. -/
theorem PoolInv.idle {e : Nat} (h : PoolInv s) (hidle : (s.entries e).inUse = 0) : (s.entries e).waiting = false := by
  have hinUse := (h.entries e).inUse
  have hchain : (s.entries e).chain = [] := List.eq_nil_of_length_eq_zero (by omega)
  rw [PoolEntry.waiting,hchain]
  rfl

/-- The pool has lost slots and the invariant still holds. -/
structure Shrunk (s t : ImapPool) : Prop where
  inv : PoolInv t
  rows : ∀ slot ∈ t.pool.rows, slot ∈ s.pool.rows

theorem Shrunk.trans {u : ImapPool} (h : Shrunk s t) (hu : Shrunk t u) : Shrunk s u :=
  ⟨hu.inv,fun slot hslot => h.rows slot (hu.rows slot hslot)⟩

def ImapPool.Lists (s : ImapPool) (slots : List PoolSlot) : Prop :=
  ∀ slot ∈ slots, ∀ slot' ∈ s.pool.rows, slot'.key = slot.key → slot' = slot

theorem ImapPool.lists_rows (s : ImapPool) : s.Lists s.pool.rows := fun _ hslot _ hslot' hkey => Table.eq_of_key hslot' hslot hkey

theorem ImapPool.Lists.tail {slots : List PoolSlot} (h : s.Lists (slot :: slots)) : s.Lists slots :=
  fun slot' hslot' => h slot' (List.mem_cons_of_mem slot hslot')

theorem ImapPool.Lists.shrunk {slots : List PoolSlot} (h : s.Lists slots) (hshrunk : Shrunk s t) : t.Lists slots :=
  fun slot hslot slot' hslot' => h slot hslot slot' (hshrunk.rows slot' hslot')

theorem shrunk_drop (h : PoolInv s) (hslot : ∀ slot' ∈ s.pool.rows, slot'.key = slot.key → slot' = slot)
    (hidle : (s.entries slot.entry).inUse = 0) : Shrunk s (s.drop slot) := by
  refine ⟨poolInv_deleteKey (poolInv_closeEntry slot.entry h) fun slot' hslot' hkey => ?_,fun slot' hslot' => ?_⟩
  · rw [closeEntry_pool] at hslot'
    rw [hslot slot' hslot' hkey,closeEntry_client,if_pos rfl,closeEntry_waiting]
    exact ⟨rfl,h.idle hidle⟩
  · have hmem := ((ImapPool.mem_deleteKey _ _).mp hslot').1
    rwa [closeEntry_pool] at hmem

theorem shrunk_evictFrom (cfg : PoolConfig) (current : JsString) (slots : List PoolSlot) (h : PoolInv s) (hslots : s.Lists slots) :
    Shrunk s (ImapPool.evictFrom cfg current s slots) := by
  induction slots generalizing s with
  | nil => exact ⟨h,fun _ hslot => hslot⟩
  | cons slot slots ih =>
    rw [ImapPool.evictFrom]
    split
    · exact ⟨h,fun _ hslot => hslot⟩
    · split
      · exact ih h hslots.tail
      · rename_i hkeep
        have hidle : (s.entries slot.entry).inUse = 0 := by
          push Not at hkeep
          exact Nat.le_zero.mp hkeep.2
        have hdrop := shrunk_drop h (hslots slot List.mem_cons_self) hidle
        exact hdrop.trans (ih hdrop.inv (hslots.tail.shrunk hdrop))

theorem shrunk_sweep (cfg : PoolConfig) (now : Nat) (slots : List PoolSlot) (h : PoolInv s) (hslots : s.Lists slots) :
    Shrunk s (slots.foldl (fun s slot => if (s.entries slot.entry).inUse = 0 ∧
      (s.entries slot.entry).lastUsed + cfg.idleTtlMs < now then s.drop slot else s) s) := by
  induction slots generalizing s with
  | nil => exact ⟨h,fun _ hslot => hslot⟩
  | cons slot slots ih =>
    rw [List.foldl_cons]
    split
    · rename_i hidle
      have hdrop := shrunk_drop h (hslots slot List.mem_cons_self) hidle.1
      exact hdrop.trans (ih hdrop.inv (hslots.tail.shrunk hdrop))
    · exact ih h hslots.tail

/-- What the first loop of `purgeSession` leaves. -/
theorem closeAll (es : List Nat) (h : PoolInv s) :
    PoolInv (es.foldl ImapPool.closeEntry s) ∧ (es.foldl ImapPool.closeEntry s).pool = s.pool ∧
      ∀ k, ((es.foldl ImapPool.closeEntry s).entries k).waiting = (s.entries k).waiting ∧
        (k ∈ es ∨ (s.entries k).client = none → ((es.foldl ImapPool.closeEntry s).entries k).client = none) := by
  induction es generalizing s with
  | nil => exact ⟨h,rfl,fun k => ⟨rfl,fun hk => hk.resolve_left List.not_mem_nil⟩⟩
  | cons e es ih =>
    obtain ⟨hinv,hpool,hentries⟩ := ih (poolInv_closeEntry e h)
    refine ⟨hinv,hpool.trans (closeEntry_pool e),fun k => ⟨(hentries k).1.trans (closeEntry_waiting e k),fun hk => ?_⟩⟩
    refine (hentries k).2 ?_
    rw [closeEntry_client]
    rcases hk with hk | hnone
    · rcases List.mem_cons.mp hk with rfl | hk
      · exact .inr (if_pos rfl)
      · exact .inl hk
    · by_cases hke : k = e <;> simp [hke,hnone]

theorem mem_deleteKeys (keys : List JsString) :
    slot ∈ (keys.foldl ImapPool.deleteKey s).pool.rows ↔ slot ∈ s.pool.rows ∧ slot.key ∉ keys := by
  induction keys generalizing s with
  | nil => simp
  | cons key keys ih =>
    rw [List.foldl_cons,ih,ImapPool.mem_deleteKey,List.mem_cons,not_or,and_assoc]

theorem poolInv_deleteKeys (keys : List JsString) (h : PoolInv s) (hgone : ∀ slot ∈ s.pool.rows, slot.key ∈ keys →
    (s.entries slot.entry).client = none ∧ (s.entries slot.entry).waiting = false) :
    PoolInv (keys.foldl ImapPool.deleteKey s) := by
  induction keys generalizing s with
  | nil => exact h
  | cons key keys ih =>
    refine ih (poolInv_deleteKey h fun slot hslot hkey => hgone slot hslot (hkey ▸ List.mem_cons_self)) ?_
    intro slot hslot hkey
    exact hgone slot ((s.mem_deleteKey key).mp hslot).1 (List.mem_cons_of_mem key hkey)

/-- A purge takes out the slots of the session, and nothing else. -/
theorem mem_purgeSession (sessionId : JsString) (h : PoolInv s)
    (hslot : slot ∈ (s.purgeSession sessionId).pool.rows) :
    slot ∈ s.pool.rows ∧ (imapPrefix sessionId).isPrefixOf slot.key = false := by
  obtain ⟨hrow,hkey⟩ := (mem_deleteKeys _).mp hslot
  rw [(closeAll _ h).2.1] at hrow
  refine ⟨hrow,Bool.eq_false_iff.mpr fun hstarts => hkey ?_⟩
  exact List.mem_map_of_mem (List.mem_filter.mpr ⟨hrow,hstarts⟩)

theorem poolInv_purgeSession (sessionId : JsString) (h : PoolInv s) (hquiet : PurgesQuiet s (.purgeSession sessionId)) :
    PoolInv (s.purgeSession sessionId) := by
  obtain ⟨hinv,hpool,hentries⟩ := closeAll ((s.pool.rows.filter fun slot =>
    (imapPrefix sessionId).isPrefixOf slot.key).map PoolSlot.entry) h
  refine poolInv_deleteKeys _ hinv fun slot hslot hkey => ?_
  rw [hpool] at hslot
  obtain ⟨doomed,hdoomed,hsame⟩ := List.mem_map.mp hkey
  obtain ⟨hrow,hstarts⟩ := List.mem_filter.mp hdoomed
  obtain rfl : doomed = slot := Table.eq_of_key hrow hslot hsame
  refine ⟨(hentries doomed.entry).2 (.inl (List.mem_map_of_mem hdoomed)),?_⟩
  rw [(hentries doomed.entry).1]
  exact hquiet doomed hrow hstarts

end Loops

section Calls
variable {e now : Nat} {key : JsString} {rest : List OpPhase}

theorem PoolInv.allocated (h : PoolInv s) (hused : (s.entries e).chain ≠ [] ∨ (s.entries e).settling ≠ 0) : e < s.nextEntry := by
  refine Nat.lt_of_not_le fun hle => ?_
  obtain ⟨-,hchain,hsettling⟩ := h.fresh e hle
  rcases hused with hne | hne
  · exact hne hchain
  · exact hne hsettling

theorem poolInv_entryFor (key : JsString) (now : Nat) (h : PoolInv s) :
    PoolInv (s.entryFor key now).1 ∧ (s.entryFor key now).1.pool = s.pool ∧
    (s.entryFor key now).2 < (s.entryFor key now).1.nextEntry ∧
    ((s.entryFor key now).1.entries (s.entryFor key now).2).key = key ∧
    ∀ slot ∈ s.pool.rows, slot.key = key → slot.entry = (s.entryFor key now).2 := by
  rw [ImapPool.entryFor]
  cases hlookup : s.pool.lookup key with
  | some slot =>
    obtain ⟨hslot,rfl⟩ := Table.lookup_eq_some.mp hlookup
    obtain ⟨hlt,hkey⟩ := h.slots slot hslot
    exact ⟨h,rfl,hlt,hkey,fun slot' hslot' hkey' => by rw [s.lists_rows slot hslot slot' hslot' hkey']⟩
  | none =>
    refine ⟨⟨fun c hc => ?_,fun k hk => ?_,fun k => ?_,fun slot hslot => ?_,fun k hk => ?_,h.unborn⟩,rfl,Nat.lt_succ_self _,
      congrArg PoolEntry.key (if_pos rfl),fun slot hslot hkey => absurd hkey (Table.lookup_eq_none.mp hlookup slot hslot)⟩
    · obtain ⟨howner,hpool⟩ := h.owned c hc
      refine ⟨?_,hpool⟩
      have hne : (s.clients c).entry ≠ s.nextEntry := fun heq => by simp [(h.fresh _ heq.ge).1] at howner
      exact (congrArg PoolEntry.client (if_neg hne)).trans howner
    · dsimp only at hk
      split at hk
      · simp [PoolEntry.waiting] at hk
      · exact h.waiting k hk
    · dsimp only
      split
      · exact ⟨by simp,rfl,by simp,by simp⟩
      · exact (h.entries k).congr rfl fun _ hc => hc
    · obtain ⟨hlt,hkey⟩ := h.slots slot hslot
      exact ⟨Nat.lt_succ_of_lt hlt,(congrArg PoolEntry.key (if_neg hlt.ne)).trans hkey⟩
    · have hne : k ≠ s.nextEntry := (Nat.lt_of_succ_le hk).ne'
      dsimp only
      rw [if_neg hne]
      exact h.fresh k (Nat.le_of_succ_le hk)

/-- The slot of a key moves to the end of the map. -/
theorem poolInv_reinsert (h : PoolInv s) (he : e < s.nextEntry) (hkey : (s.entries e).key = key)
    (hslots : ∀ slot ∈ s.pool.rows, slot.key = key → slot.entry = e) :
    PoolInv { s with pool := s.pool.reinsert ⟨key,e⟩ } := by
  have hstays : ∀ k, s.InPool k → ImapPool.InPool { s with pool := s.pool.reinsert ⟨key,e⟩ } k := by
    rintro k ⟨slot,hslot,rfl⟩
    by_cases hk : slot.key = key
    · exact ⟨⟨key,e⟩,Table.mem_reinsert.mpr (.inr rfl),(hslots slot hslot hk).symm⟩
    · exact ⟨slot,Table.mem_reinsert.mpr (.inl ⟨hslot,hk⟩),rfl⟩
  refine ⟨fun c hc => ⟨(h.owned c hc).1,hstays _ (h.owned c hc).2⟩,fun k hk => hstays k (h.waiting k hk),fun k => ?_,
    fun slot hslot => ?_,h.fresh,h.unborn⟩
  · exact (h.entries k).congr rfl fun _ hc => hc
  · rcases Table.mem_reinsert.mp hslot with ⟨hslot,-⟩ | rfl
    · exact h.slots slot hslot
    · exact ⟨he,hkey⟩

theorem poolInv_enqueue (h : PoolInv s) (he : e < s.nextEntry) (hkey : (s.entries e).key = key)
    (hslots : ∀ slot ∈ s.pool.rows, slot.key = key → slot.entry = e) : PoolInv (s.enqueue key e) := by
  have hmoved := poolInv_reinsert h he hkey hslots
  obtain ⟨htail,hinUse,hclient,hconnecting⟩ := h.entries e
  change PoolInv (ImapPool.modify { s with pool := s.pool.reinsert ⟨key,e⟩ } e fun x =>
    { x with inUse := x.inUse + 1, chain := x.chain ++ [.queued] })
  refine hmoved.modify he rfl (fun _ _ hc => hc) (fun _ => ⟨⟨key,e⟩,Table.mem_reinsert.mpr (.inr rfl),rfl⟩) ⟨?_,?_,hclient,?_⟩
  · intro op hop
    cases hchain : (s.entries e).chain with
    | nil => simp [hchain] at hop
    | cons first rest =>
      rw [hchain] at htail
      simp only [hchain,List.cons_append,List.tail_cons,List.mem_append,List.mem_singleton] at hop
      exact hop.elim (htail op) id
  · simp only [List.length_append,List.length_singleton]
    omega
  · intro hop
    simp only [List.mem_append,List.mem_singleton,reduceCtorEq,or_false] at hop
    exact hconnecting hop

theorem connect_self (s : ImapPool) (e now : Nat) (rest : List OpPhase) : (s.connect e now rest).entries e = { s.entries e with
    client := some s.nextClient, lastUsed := now, chain := .running s.nextClient :: rest } := if_pos rfl

theorem connect_ne {k : Nat} (h : k ≠ e) : (s.connect e now rest).entries k = s.entries k := if_neg h

theorem connected_of_connect {c : Nat} (h : (s.connect e now rest).Connected c) (hne : c ≠ s.nextClient) :
    s.Connected c ∧ ((s.connect e now rest).clients c).entry = (s.clients c).entry := by
  have hclient : (s.connect e now rest).clients c = s.clients c := if_neg hne
  rw [ImapPool.Connected,hclient] at h
  exact ⟨h,by rw [hclient]⟩

theorem entryInv_connect (h : PoolInv s) (hchain : (s.entries e).chain = .connecting :: rest) (k : Nat) :
    EntryInv (s.connect e now rest) ((s.connect e now rest).entries k) := by
  by_cases hke : k = e
  · obtain ⟨htail,hinUse,-,-⟩ := h.entries e
    rw [hchain] at htail hinUse
    rw [hke,connect_self]
    refine ⟨htail,hinUse,fun c hc => ?_,fun hop => ?_⟩
    · rw [← Option.some.inj hc]
      exact Nat.lt_succ_self _
    · simp only [List.mem_cons,reduceCtorEq,false_or] at hop
      exact absurd (htail .connecting hop) (by simp)
  · rw [connect_ne hke]
    obtain ⟨htail,hinUse,hclient,hconnecting⟩ := h.entries k
    refine ⟨htail,hinUse,fun c hc => Nat.lt_succ_of_lt (hclient c hc),fun hop c hc hconn => ?_⟩
    exact hconnecting hop c hc (connected_of_connect hconn (hclient c hc).ne).1

theorem poolInv_connect (h : PoolInv s) (hchain : (s.entries e).chain = .connecting :: rest) : PoolInv (s.connect e now rest) := by
  have he : e < s.nextEntry := h.allocated (.inl (by simp [hchain]))
  have hpooled : s.InPool e := h.waiting e (by simp [PoolEntry.waiting,hchain,OpPhase.isPending])
  refine ⟨fun c hc => ?_,fun k hk => ?_,entryInv_connect h hchain,fun slot hslot => ?_,fun k hk => ?_,fun c hc hconn => ?_⟩
  · by_cases hnew : c = s.nextClient
    · have hentry : ((s.connect e now rest).clients c).entry = e := congrArg ImapClient.entry (if_pos hnew)
      rw [hentry,connect_self,hnew]
      exact ⟨rfl,hpooled⟩
    · obtain ⟨hc,hentry⟩ := connected_of_connect hc hnew
      obtain ⟨howner,hpool⟩ := h.owned c hc
      have hne : (s.clients c).entry ≠ e := by
        intro heq
        rw [heq] at howner
        exact (h.entries e).connecting (by simp [hchain]) c howner hc
      rw [hentry,connect_ne hne]
      exact ⟨howner,hpool⟩
  · by_cases hke : k = e
    · rw [hke]
      exact hpooled
    · rw [connect_ne hke] at hk
      exact h.waiting k hk
  · obtain ⟨hlt,hkey⟩ := h.slots slot hslot
    refine ⟨hlt,?_⟩
    by_cases hk : slot.entry = e
    · rw [hk,connect_self]
      exact hk ▸ hkey
    · rw [connect_ne hk]
      exact hkey
  · rw [connect_ne (Nat.lt_of_lt_of_le he hk).ne']
    exact h.fresh k hk
  · have hlt : s.nextClient < c := Nat.lt_of_succ_le hc
    exact h.unborn c hlt.le (connected_of_connect hconn hlt.ne').1

/-- The first call of the chain moves on. -/
theorem EntryInv.head {x x' : PoolEntry} {op op' : OpPhase} (h : EntryInv s x) (hchain : x.chain = op :: rest)
    (hchain' : x'.chain = op' :: rest) (hclient : x'.client = x.client) (hinUse : x'.inUse = x.inUse)
    (hsettling : x'.settling = x.settling) (hconnecting : op' = .connecting → ∀ c, x.client = some c → ¬s.Connected c) :
    EntryInv s x' := by
  have htail := h.tail
  have hold := h.inUse
  rw [hchain] at htail hold
  refine ⟨?_,?_,?_,?_⟩
  · rw [hchain']
    exact htail
  · rw [hchain',hinUse,hsettling]
    exact hold
  · rw [hclient]
    exact h.client
  · rw [hchain',hclient]
    intro hop
    rcases List.mem_cons.mp hop with heq | hrest
    · exact hconnecting heq.symm
    · exact absurd (htail .connecting hrest) (by simp)

theorem EntryInv.settle {x x' : PoolEntry} {op : OpPhase} (h : EntryInv s x) (hchain : x.chain = op :: rest)
    (hchain' : x'.chain = rest) (hclient : x'.client = x.client) (hinUse : x'.inUse = x.inUse)
    (hsettling : x'.settling = x.settling + 1) : EntryInv s x' := by
  have htail := h.tail
  have hold := h.inUse
  rw [hchain] at htail hold
  refine ⟨?_,?_,?_,?_⟩
  · rw [hchain']
    exact fun op hop => htail op (List.mem_of_mem_tail hop)
  · rw [hchain',hinUse,hsettling,hold,List.length_cons]
    omega
  · rw [hclient]
    exact h.client
  · rw [hchain']
    exact fun hop => absurd (htail .connecting hop) (by simp)

theorem PoolEntry.waiting_cons {x : PoolEntry} {op : OpPhase} (hchain : x.chain = op :: rest)
    (h : rest.any OpPhase.isPending = true) : x.waiting = true := by
  rw [PoolEntry.waiting,hchain,List.any_cons,h,Bool.or_true]

end Calls

/-- What a step leaves: slots that were there, or the one of a new call. -/
structure Advanced (s : ImapPool) (a : PoolAction) (t : ImapPool) : Prop where
  inv : PoolInv t
  rows : ∀ slot ∈ t.pool.rows, slot ∈ s.pool.rows ∨
    ∃ sessionId mailboxId now, a = .run sessionId mailboxId now ∧ slot.key = imapKey sessionId mailboxId

theorem Advanced.of_shrunk (h : Shrunk s t) : Advanced s a t :=
  ⟨h.inv,fun slot hslot => .inl (h.rows slot hslot)⟩

theorem Advanced.of_modify (h : PoolInv (s.modify e f)) :
    Advanced s a (s.modify e f) := ⟨h,fun _ hslot => .inl hslot⟩

/-- The first call of an entry settles, with a result or an exception. -/
theorem advanced_settle {op : OpPhase} {rest : List OpPhase} (h : PoolInv s)
    (hchain : (s.entries e).chain = op :: rest) :
    Advanced s a (s.modify e fun x => { x with chain := rest, settling := x.settling + 1 }) := by
  have he : e < s.nextEntry := h.allocated (.inl (by simp [hchain]))
  refine .of_modify (h.modify he rfl (fun _ _ hc => hc) (fun hwaits => ?_) ?_)
  · exact h.waiting e (PoolEntry.waiting_cons hchain hwaits)
  · exact (h.entries e).settle hchain rfl rfl rfl rfl

theorem advanced_run (sessionId mailboxId : JsString) (now : Nat) (h : PoolInv s) :
    Advanced s (.run sessionId mailboxId now) (s.run (imapKey sessionId mailboxId) now) := by
  obtain ⟨hinv,hpool,hlt,hkey,hslots⟩ := poolInv_entryFor (imapKey sessionId mailboxId) now h
  rw [← hpool] at hslots
  refine ⟨poolInv_enqueue hinv hlt hkey hslots,fun slot hslot => ?_⟩
  rcases Table.mem_reinsert.mp hslot with ⟨hslot,-⟩ | rfl
  · have hold : slot ∈ (s.entryFor (imapKey sessionId mailboxId) now).1.pool.rows := hslot
    rw [hpool] at hold
    exact .inl hold
  · exact .inr ⟨sessionId,mailboxId,now,rfl,rfl⟩

/-- The first call of an entry begins. -/
theorem advanced_start {rest : List OpPhase} (h : PoolInv s)
    (hchain : (s.entries e).chain = .queued :: rest) (hkey : (f (s.entries e)).key = (s.entries e).key)
    (hclient : (f (s.entries e)).client = (s.entries e).client) (hentry : EntryInv s (f (s.entries e))) : Advanced s a (s.modify e f) := by
  have he : e < s.nextEntry := h.allocated (.inl (by simp [hchain]))
  have hpooled : s.InPool e := h.waiting e (by simp [PoolEntry.waiting,hchain,OpPhase.isPending])
  exact .of_modify (h.modify he hkey (fun _ _ hc => hclient.trans hc) (fun _ => hpooled) hentry)

/-- A call leaves, and entries that nobody uses are evicted. -/
theorem advanced_finish {e settling : Nat} (now : Nat) (current : JsString) (h : PoolInv s)
    (hsettling : (s.entries e).settling = settling + 1) :
    Advanced s a ((s.modify e fun x => { x with inUse := x.inUse - 1, lastUsed := now, settling := settling }).evictOverCap cfg
      current) := by
  obtain ⟨htail,hinUse,hclient,hconnecting⟩ := h.entries e
  rw [hsettling] at hinUse
  have he : e < s.nextEntry := h.allocated (.inr (by simp [hsettling]))
  have hmodified : PoolInv (s.modify e fun x => { x with inUse := x.inUse - 1, lastUsed := now, settling := settling }) := by
    refine h.modify he rfl (fun _ _ hc => hc) (h.waiting e) ⟨htail,?_,hclient,hconnecting⟩
    simp only
    omega
  have hevicted := shrunk_evictFrom cfg current _ hmodified (ImapPool.lists_rows _)
  exact ⟨hevicted.inv,fun slot hslot => .inl (hevicted.rows slot hslot)⟩

theorem pool_step (h : PoolInv s) (hquiet : PurgesQuiet s a) (hstep : poolStep cfg s a = some t) :
    Advanced s a t := by
  cases poolMoved_of_step hstep with
  | run sessionId mailboxId now => exact advanced_run sessionId mailboxId now h
  | reuses hchain hclient => exact advanced_start h hchain rfl rfl ((h.entries _).head hchain rfl rfl rfl rfl (by simp))
  | connects hchain hclient =>
    refine advanced_start h hchain rfl rfl ((h.entries _).head hchain rfl rfl rfl rfl fun _ c hc hconnected => ?_)
    exact Option.filter_eq_none_iff.mp hclient c hc (decide_eq_true hconnected)
  | connected hchain => exact ⟨poolInv_connect h hchain,fun _ hslot => .inl hslot⟩
  | rejected hchain => exact advanced_settle h hchain
  | settled hchain => exact advanced_settle h hchain
  | finished hsettling => exact advanced_finish _ _ h hsettling
  | purged sessionId =>
    exact ⟨poolInv_purgeSession sessionId h hquiet,fun slot hslot => .inl (mem_purgeSession sessionId h hslot).1⟩
  | swept now => exact .of_shrunk (shrunk_sweep cfg now _ h s.lists_rows)
  | lost husable => exact ⟨poolInv_setStatus h _ (by simp),fun _ hslot => .inl hslot⟩

theorem PoolInv.pooled (h : PoolInv s) {c : Nat} (hc : s.Connected c) : s.Pooled c := by
  obtain ⟨hclient,slot,hslot,hentry⟩ := h.owned c hc
  exact ⟨slot,hslot,by rw [hentry]; exact hclient⟩

structure Purged (sessionId : JsString) (s : ImapPool) : Prop where
  inv : PoolInv s
  slots : ∀ slot ∈ s.pool.rows, (imapPrefix sessionId).isPrefixOf slot.key = false

theorem purged_step {sessionId : JsString} (h : Purged sessionId s)
    (ha : PurgesQuiet s a ∧ NoRunFor sessionId a) (hstep : poolStep cfg s a = some t) : Purged sessionId t := by
  have hadvanced := pool_step h.inv ha.1 hstep
  refine ⟨hadvanced.inv,fun slot hslot => ?_⟩
  rcases hadvanced.rows slot hslot with hold | ⟨sessionId',mailboxId,now,rfl,hkey⟩
  · exact h.slots slot hold
  · rw [hkey]
    exact ha.2

theorem Purged.not_ofSession {sessionId : JsString} {c : Nat} (h : Purged sessionId s) (hc : s.Connected c) :
    ¬s.OfSession sessionId c := by
  obtain ⟨-,slot,hslot,hentry⟩ := h.inv.owned c hc
  rw [ImapPool.OfSession,← hentry,(h.inv.slots slot hslot).2,h.slots slot hslot]
  simp

/-- As long as sessions are purged only while none of their calls is queued or connecting,
every connected client belongs to an entry of the pool. After a purge none of the
session's clients is connected until `run` is called for it again. -/
theorem no_connection_outlives_entry (cfg : PoolConfig) {s : ImapPool} (hrun : Run (poolStep cfg) PurgesQuiet .initial s) :
    (∀ c, s.Connected c → s.Pooled c) ∧
    ∀ sessionId t u, PurgesQuiet s (.purgeSession sessionId) → poolStep cfg s (.purgeSession sessionId) = some t →
      Run (poolStep cfg) (fun s a => PurgesQuiet s a ∧ NoRunFor sessionId a) t u →
      ∀ c, u.Connected c → ¬u.OfSession sessionId c := by
  have hinv := hrun.invariant (fun _ _ _ h ha hstep => (pool_step h ha hstep).inv) poolInv_initial
  refine ⟨fun c hc => hinv.pooled hc,fun sessionId t u hquiet hpurge hlater c hc => ?_⟩
  cases hpurge
  have hpurged : Purged sessionId (s.purgeSession sessionId) :=
    ⟨poolInv_purgeSession sessionId hinv hquiet,fun slot hslot => (mem_purgeSession sessionId hinv hslot).2⟩
  exact (hlater.invariant (fun _ _ _ h ha hstep => purged_step h ha hstep) hpurged).not_ofSession hc

structure ClientView where
  settled : Bool
  first : ClientStatus
  pooled : List (Option Nat)
  deriving DecidableEq

instance (s : ImapPool) : Decidable s.Settled := Nat.decidableBallLT _ _

def clientView (s : ImapPool) : ClientView :=
  ⟨s.Settled,(s.clients 0).status,s.pool.rows.map fun slot => (s.entries slot.entry).client⟩

def smallPool : PoolConfig := ⟨60000,2⟩

theorem no_connection_outlives_purge :
    ∃ s t, Run (poolStep smallPool) PurgesQuiet .initial s ∧ s.Connected 0 ∧ s.Pooled 0 ∧
      poolStep smallPool s (.purgeSession (js "s")) = some t ∧ ∀ c, t.Connected c → ¬t.OfSession (js "s") c := by
  have htrace : (runActions (poolStep smallPool) PurgesQuiet .initial [.run (js "s") (js "m") 0,.start 0 0,.connected 0 5,
      .settle 0,.finish 0 9]).map (fun s => (clientView s,decide (PurgesQuiet s (.purgeSession (js "s"))))) =
      some (⟨true,.connected,[some 0]⟩,true) := by
    decide +kernel
  obtain ⟨s,hs,hview⟩ := Option.map_eq_some_iff.mp htrace
  obtain ⟨hview,hquiet⟩ := Prod.mk.inj hview
  have hrun := Run.of_actions hs
  have hconnected : s.Connected 0 := congrArg ClientView.first hview
  obtain ⟨hpooled,hpurge⟩ := no_connection_outlives_entry smallPool hrun
  exact ⟨s,s.purgeSession (js "s"),hrun,hconnected,hpooled 0 hconnected,rfl,
    hpurge (js "s") _ _ (of_decide_eq_true hquiet) rfl (.refl _)⟩

/-- The session is purged while its first call is connecting. The client that then
connects goes to an entry that the pool has dropped. -/
theorem purged_call_leaks :
    ∃ s, Run (poolStep smallPool) (fun _ _ => True) .initial s ∧ s.Settled ∧ ∃ c, s.Connected c ∧ ¬s.Pooled c := by
  have htrace : (runActions (poolStep smallPool) (fun _ _ => True) .initial [.run (js "s") (js "m") 0,.start 0 0,
      .purgeSession (js "s"),.connected 0 5,.settle 0,.finish 0 9]).map clientView = some ⟨true,.connected,[]⟩ := by
    decide +kernel
  obtain ⟨s,hs,hview⟩ := Option.map_eq_some_iff.mp htrace
  refine ⟨s,Run.of_actions hs,of_decide_eq_true (congrArg ClientView.settled hview),0,congrArg ClientView.first hview,?_⟩
  rintro ⟨slot,hslot,-⟩
  have hempty : s.pool.rows.map (fun slot => (s.entries slot.entry).client) = [] := congrArg ClientView.pooled hview
  rw [List.map_eq_nil_iff.mp hempty] at hslot
  exact List.not_mem_nil hslot

end Invariant
end JustMail.Webmail
