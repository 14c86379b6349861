import JustMail.Webmail.IdleWatcher

/-! Which watcher owns a connected client, and when a client is left that none owns. -/
namespace JustMail.Webmail
open Foundation

section Statement

namespace IdleState
variable (s : IdleState)

def Connected (c : Nat) : Prop := (s.clients c).status = .connected

/-- The client is the one registered under its key. -/
def Registered (c : Nat) : Prop := ∃ w, s.watchers.lookup (s.clients c).key = some w ∧ w.client = c

/-- No call is in flight, and no `stop` that nobody waits for. -/
def Idle : Prop := (∀ i < s.nextCall, s.calls i = none) ∧ ∀ c < s.nextClient, (s.clients c).status ≠ .closing

end IdleState

def IdleCall.isUnwatch (key : JsString) : IdleCall → Bool
  | .unwatch key' _ => key' = key
  | .watch _ _ _ => false

/-- A call of `watch` finds no other connected client under its key when it registers its
own, and no `unwatch` of the key in flight; `mailboxOpen` fails only with the connection. -/
def undisturbed (s : IdleState) : IdleAction → Bool
  | .opened i _ =>
    match s.calls i with
    | some (.watch key _ (.opening _)) => (s.watchers.lookup key).all (fun w => !s.usable w.client) &&
      (List.range s.nextCall).all fun j => !(s.calls j).any (IdleCall.isUnwatch key)
    | _ => true
  | .openFailed i =>
    match s.calls i with
    | some (.watch _ _ (.opening c)) => !s.usable c
    | _ => true
  | _ => true

end Statement

section Invariant
variable {ttlMs : Nat} {s t : IdleState} {c i : Nat} {key folder : JsString} {w : Watcher}

/-- A call of `watch` has the client and has still to register it. -/
def IdleState.Opening (s : IdleState) (c : Nat) : Prop := ∃ i folder, s.calls i = some (.watch (s.clients c).key folder (.opening c))

structure IdleInv (s : IdleState) : Prop where
  owned : ∀ c, s.Connected c → s.Registered c ∨ s.Opening c
  unborn : ∀ c, s.nextClient ≤ c → ¬s.Connected c
  clients : ∀ i key folder c, s.calls i = some (.watch key folder (.connecting c)) ∨ s.calls i = some (.watch key folder (.opening c)) →
    c < s.nextClient ∧ (s.clients c).key = key
  registered : ∀ w ∈ s.watchers.rows, w.client < s.nextClient
  unwatching : ∀ i key c, s.calls i = some (.unwatch key c) → s.watchers.lookup key = none
  stopped : ∀ key, s.last key = some .unwatch ∨ s.last key = some .purgeSession → s.watchers.lookup key = none
  fresh : ∀ i, s.nextCall ≤ i → s.calls i = none

theorem idleInv_initial : IdleInv .initial := by
  refine ⟨fun c hc => ?_,fun c _ hc => ?_,fun i key folder c hc => ?_,fun w hw => absurd hw List.not_mem_nil,fun i key c hc => ?_,
    fun key hkey => ?_,fun _ _ => rfl⟩ <;> simp_all [IdleState.initial,IdleState.Connected]

theorem IdleState.Connected.usable (h : s.Connected c) : s.usable c = true := decide_eq_true h

/-- Only connections that were there before are left. -/
theorem IdleState.Connected.of_setStatus {status : IdleStatus} {k : Nat} (hstatus : status ≠ .connected)
    (h : (s.setStatus c status).Connected k) : k ≠ c ∧ s.Connected k := by
  rw [IdleState.Connected,IdleState.setStatus_status] at h
  split at h
  · exact absurd h hstatus
  · rename_i hk
    exact ⟨hk,h⟩

/-- A watcher that goes takes its own client along, so that no other one is left behind. -/
theorem idleInv_discard (h : IdleInv s) (hw : s.watchers.lookup w.key = some w) : IdleInv (s.discard w) := by
  have hgone : ∀ k, s.watchers.lookup k = none → (s.discard w).watchers.lookup k = none := by
    intro k hk
    rw [s.lookup_discard]
    split
    · rfl
    · exact hk
  refine ⟨fun c hc => ?_,fun c hc hconn => h.unborn c hc (hconn.of_setStatus (by simp)).2,fun i key folder c hc => ?_,fun w' hw' => ?_,
    fun i key c hc => hgone key (h.unwatching i key c hc),fun key hk => hgone key (h.stopped key hk),h.fresh⟩
  · obtain ⟨hne,hconn⟩ := hc.of_setStatus (by simp)
    rcases h.owned c hconn with ⟨w',hw',hclient⟩ | ⟨i,folder,hi⟩
    · refine .inl ⟨w',?_,hclient⟩
      rw [s.lookup_discard,s.discard_key,if_neg]
      · exact hw'
      · intro hsame
        rw [hsame,hw,Option.some.injEq] at hw'
        exact hne (by rw [← hclient,hw'])
    · exact .inr ⟨i,folder,by rw [s.discard_key]; exact hi⟩
  · rw [s.discard_key]
    exact h.clients i key folder c hc
  · exact h.registered w' (List.mem_of_mem_filter hw')

theorem idleInv_discards (ws : List Watcher) (h : IdleInv s) (hws : ∀ w ∈ ws, s.watchers.lookup w.key = some w)
    (hkeys : (ws.map Watcher.key).Nodup) :
    IdleInv (ws.foldl IdleState.discard s) ∧ (∀ k, (ws.foldl IdleState.discard s).watchers.lookup k =
      if k ∈ ws.map Watcher.key then none else s.watchers.lookup k) ∧ (ws.foldl IdleState.discard s).calls = s.calls := by
  induction ws generalizing s with
  | nil => exact ⟨h,fun k => by simp,rfl⟩
  | cons w ws ih =>
    obtain ⟨hnotMem,hrest⟩ := List.nodup_cons.mp hkeys
    have hstill : ∀ w' ∈ ws, (s.discard w).watchers.lookup w'.key = some w' := by
      intro w' hw'
      rw [s.lookup_discard,if_neg]
      · exact hws w' (List.mem_cons_of_mem w hw')
      · intro hsame
        exact hnotMem (hsame ▸ List.mem_map_of_mem hw')
    obtain ⟨hinv,hk,hcalls⟩ := ih (idleInv_discard h (hws w List.mem_cons_self)) hstill hrest
    refine ⟨hinv,fun k => ?_,hcalls⟩
    rw [List.foldl_cons,hk,s.lookup_discard,List.map_cons]
    by_cases hmem : k ∈ ws.map Watcher.key <;> by_cases hsame : k = w.key <;> simp [hmem,hsame]

theorem idleInv_setStatus {status : IdleStatus} (c : Nat) (h : IdleInv s) (hstatus : status ≠ .connected) :
    IdleInv (s.setStatus c status) := by
  refine ⟨fun k hk => ?_,fun k hk hconn => h.unborn k hk (hconn.of_setStatus hstatus).2,fun i key folder k hk => ?_,h.registered,
    h.unwatching,h.stopped,h.fresh⟩
  · rcases h.owned k (hk.of_setStatus hstatus).2 with ⟨w,hw,hclient⟩ | ⟨i,folder,hi⟩
    · exact .inl ⟨w,by rw [s.setStatus_key]; exact hw,hclient⟩
    · exact .inr ⟨i,folder,by rw [s.setStatus_key]; exact hi⟩
  · rw [s.setStatus_key]
    exact h.clients i key folder k hk

/-- A call moves on. A client it has been opening must have found its owner by then. -/
theorem IdleInv.setCall (h : IdleInv s) {call : Option IdleCall} (hi : i < s.nextCall ∨ call = none)
    (hopened : ∀ key folder c, s.calls i = some (.watch key folder (.opening c)) → s.Connected c → s.Registered c)
    (hclient : ∀ key folder c, call = some (.watch key folder (.connecting c)) → c < s.nextClient ∧ (s.clients c).key = key)
    (hopening : ∀ key folder c, call ≠ some (.watch key folder (.opening c)))
    (hunwatch : ∀ key c, call = some (.unwatch key c) → s.watchers.lookup key = none) : IdleInv (s.setCall i call) := by
  refine ⟨fun c hc => ?_,h.unborn,fun k key folder c hc => ?_,h.registered,fun k key c hc => ?_,h.stopped,fun k hk => ?_⟩
  · rcases h.owned c hc with hreg | ⟨k,folder,hk⟩
    · exact .inl hreg
    · by_cases hki : k = i
      · exact .inl (hopened _ folder c (hki ▸ hk) hc)
      · exact .inr ⟨k,folder,(if_neg hki).trans hk⟩
  · rw [s.setCall_calls] at hc
    split at hc
    · exact hc.elim (hclient key folder c) fun heq => absurd heq (hopening key folder c)
    · exact h.clients k key folder c hc
  · rw [s.setCall_calls] at hc
    split at hc
    · exact hunwatch key c hc
    · exact h.unwatching k key c hc
  · rw [s.setCall_calls]
    split
    · rename_i hki
      exact hi.resolve_left fun hlt => absurd (hki ▸ hk) (Nat.not_le_of_lt hlt)
    · exact h.fresh k hk

theorem IdleInv.addCall (h : IdleInv s) {call : IdleCall}
    (hclient : ∀ key folder c, call = .watch key folder (.connecting c) → c < s.nextClient ∧ (s.clients c).key = key)
    (hopening : ∀ key folder c, call ≠ .watch key folder (.opening c))
    (hunwatch : ∀ key c, call = .unwatch key c → s.watchers.lookup key = none) : IdleInv (s.addCall call) := by
  have hroom : IdleInv { s with nextCall := s.nextCall + 1 } :=
    ⟨h.owned,h.unborn,h.clients,h.registered,h.unwatching,h.stopped,fun i hi => h.fresh i (Nat.le_of_succ_le hi)⟩
  refine hroom.setCall (i := s.nextCall) (.inl (Nat.lt_succ_self _)) (fun key folder c hc => ?_)
    (fun key folder c hc => hclient key folder c (Option.some.inj hc)) (fun key folder c hc => hopening key folder c (Option.some.inj hc))
    fun key c hc => hunwatch key c (Option.some.inj hc)
  have hnone : s.calls s.nextCall = none := h.fresh _ le_rfl
  rw [hnone] at hc
  simp at hc

theorem IdleInv.complete (h : IdleInv s) {p : JsString → Bool} {kind : IdleCallKind}
    (hkind : kind = .watch ∨ ∀ key, p key = true → s.watchers.lookup key = none) : IdleInv (s.complete p kind) := by
  refine ⟨h.owned,h.unborn,h.clients,h.registered,h.unwatching,fun key hkey => ?_,h.fresh⟩
  simp only [IdleState.complete] at hkey
  split at hkey
  · rename_i hp
    rcases hkind with rfl | hnone
    · simp at hkey
    · exact hnone key hp
  · exact h.stopped key hkey

theorem idleInv_newClient (key : JsString) (h : IdleInv s) : IdleInv (s.newClient key) := by
  have hold : ∀ c, c < s.nextClient → (s.newClient key).clients c = s.clients c := fun c hc => if_neg hc.ne
  have hconn : ∀ c, (s.newClient key).Connected c → c < s.nextClient ∧ s.Connected c := by
    intro c hc
    by_cases hnew : c = s.nextClient
    · simp [IdleState.Connected,IdleState.newClient,hnew] at hc
    · have hc : s.Connected c := by simpa [IdleState.Connected,IdleState.newClient,hnew] using hc
      exact ⟨Nat.lt_of_not_le fun hle => h.unborn c hle hc,hc⟩
  refine ⟨fun c hc => ?_,fun c hc hcon => ?_,fun i key' folder c hc => ?_,fun w hw => Nat.lt_succ_of_lt (h.registered w hw),
    h.unwatching,h.stopped,h.fresh⟩
  · obtain ⟨hlt,hc⟩ := hconn c hc
    rcases h.owned c hc with ⟨w,hw,hclient⟩ | ⟨i,folder,hi⟩
    · exact .inl ⟨w,by rw [hold c hlt]; exact hw,hclient⟩
    · exact .inr ⟨i,folder,by rw [hold c hlt]; exact hi⟩
  · exact absurd (hconn c hcon).1 (Nat.not_lt_of_le (Nat.le_of_succ_le hc))
  · obtain ⟨hlt,hkey⟩ := h.clients i key' folder c hc
    refine ⟨Nat.lt_succ_of_lt hlt,?_⟩
    rw [hold c hlt]
    exact hkey

/-- The client of a call connects and is the call's until it is registered. -/
theorem idleInv_connected (h : IdleInv s) (hcall : s.calls i = some (.watch key folder (.connecting c))) :
    IdleInv ((s.setStatus c .connected).setCall i (some (.watch key folder (.opening c)))) := by
  obtain ⟨hlt,hkey⟩ := h.clients i key folder c (.inl hcall)
  have hi : i < s.nextCall := Nat.lt_of_not_le fun hle => by simp [h.fresh i hle] at hcall
  refine ⟨fun k hk => ?_,fun k hk hconn => ?_,fun j key' folder' k hk => ?_,h.registered,fun j key' k hk => ?_,h.stopped,fun j hj => ?_⟩
  · by_cases hkc : k = c
    · refine .inr ⟨i,folder,?_⟩
      change (if i = i then _ else _) = some (IdleCall.watch ((s.setStatus c .connected).clients k).key folder (.opening k))
      rw [if_pos rfl,s.setStatus_key,hkc,hkey]
    · have hk : s.Connected k := by
        change ((s.setStatus c .connected).clients k).status = .connected at hk
        rw [s.setStatus_status,if_neg hkc] at hk
        exact hk
      rcases h.owned k hk with ⟨w,hw,hclient⟩ | ⟨j,folder',hj⟩
      · refine .inl ⟨w,?_,hclient⟩
        change s.watchers.lookup ((s.setStatus c .connected).clients k).key = some w
        rw [s.setStatus_key]
        exact hw
      · refine .inr ⟨j,folder',?_⟩
        change (if j = i then _ else s.calls j) = some (IdleCall.watch ((s.setStatus c .connected).clients k).key folder' (.opening k))
        rw [s.setStatus_key,if_neg]
        · exact hj
        · rintro rfl
          simp [hcall] at hj
  · change ((s.setStatus c .connected).clients k).status = .connected at hconn
    rw [s.setStatus_status,if_neg (Nat.lt_of_lt_of_le hlt hk).ne'] at hconn
    exact h.unborn k hk hconn
  · change k < s.nextClient ∧ ((s.setStatus c .connected).clients k).key = key'
    rw [s.setStatus_key]
    rw [IdleState.setCall_calls] at hk
    split at hk
    · rcases hk with hk | hk
      · simp at hk
      · obtain ⟨rfl,rfl,rfl⟩ : key = key' ∧ folder = folder' ∧ c = k := by simpa using hk
        exact ⟨hlt,hkey⟩
    · exact h.clients j key' folder' k hk
  · rw [IdleState.setCall_calls] at hk
    split at hk
    · simp at hk
    · exact h.unwatching j key' k hk
  · rw [IdleState.setCall_calls,if_neg (Nat.lt_of_lt_of_le hi hj).ne']
    exact h.fresh j hj

theorem idleInv_register (folder : JsString) (now : Nat) (h : IdleInv s) (hlt : c < s.nextClient) (hkey : (s.clients c).key = key)
    (hother : ∀ w, s.watchers.lookup key = some w → ¬s.Connected w.client)
    (hunwatch : ∀ j client, s.calls j ≠ some (.unwatch key client)) :
    IdleInv ((s.register key folder c now).complete (· = key) .watch) ∧
      ((s.register key folder c now).complete (· = key) .watch).Registered c := by
  have hlookup : ∀ k, ((s.register key folder c now).complete (· = key) .watch).watchers.lookup k =
      if k = key then some ⟨key,folder,c,now⟩ else s.watchers.lookup k := Table.lookup_upsert s.watchers ⟨key,folder,c,now⟩
  have hregistered : ((s.register key folder c now).complete (· = key) .watch).Registered c :=
    ⟨⟨key,folder,c,now⟩,by rw [hlookup,if_pos]; exact hkey,rfl⟩
  refine ⟨⟨fun k hk => ?_,h.unborn,h.clients,fun w hw => ?_,fun j key' k hk => ?_,fun key' hlast => ?_,h.fresh⟩,hregistered⟩
  · by_cases hkc : k = c
    · rw [hkc]
      exact .inl hregistered
    · rcases h.owned k hk with ⟨w,hw,hclient⟩ | hopening
      · refine .inl ⟨w,?_,hclient⟩
        rw [hlookup]
        change (if (s.clients k).key = key then _ else s.watchers.lookup (s.clients k).key) = some w
        rw [if_neg]
        · exact hw
        · intro hsame
          rw [hsame] at hw
          exact hother w hw (hclient ▸ hk)
      · exact .inr hopening
  · have hmem := Table.lookup_of_mem hw
    rw [hlookup] at hmem
    split at hmem
    · cases hmem
      exact hlt
    · exact h.registered w (Table.lookup_eq_some.mp hmem).1
  · rw [hlookup,if_neg]
    · exact h.unwatching j key' k hk
    · rintro rfl
      exact hunwatch j k hk
  · simp only [IdleState.complete,decide_eq_true_eq] at hlast
    split at hlast
    · simp at hlast
    · rename_i hne
      rw [hlookup,if_neg hne]
      exact h.stopped key' hlast

theorem idleInv_touch (key : JsString) (now : Nat) (h : IdleInv s) : IdleInv (s.touch key now) := by
  have hlookup : ∀ k, (s.touch key now).watchers.lookup k =
      (s.watchers.lookup k).map fun w => if decide (w.key = key) = true then { w with touchedAt := now } else w :=
    Table.lookup_updateWhere s.watchers (fun w => w.key = key) (fun w => { w with touchedAt := now }) fun _ => rfl
  have hclient : ∀ w : Watcher, (if decide (w.key = key) = true then { w with touchedAt := now } else w).client = w.client := by
    intro w
    split <;> rfl
  refine ⟨fun c hc => ?_,h.unborn,h.clients,fun w hw => ?_,fun i key' c hc => ?_,fun key' hkey => ?_,h.fresh⟩
  · rcases h.owned c hc with ⟨w,hw,hc⟩ | hopening
    · refine .inl ⟨_,?_,(hclient w).trans hc⟩
      rw [hlookup]
      exact congrArg (Option.map _) hw
    · exact .inr hopening
  · obtain ⟨w',hw',rfl⟩ := List.mem_map.mp hw
    rw [hclient]
    exact h.registered w' hw'
  · rw [hlookup,h.unwatching i key' c hc]
    rfl
  · rw [hlookup,h.stopped key' hkey]
    rfl

theorem idleInv_lose (c : Nat) (h : IdleInv s) : IdleInv (s.lose c) := by
  have hinv : IdleInv (s.setStatus c .lost) := idleInv_setStatus c h (by simp)
  have hlookup : ∀ k, (s.lose c).watchers.lookup k =
      (s.watchers.lookup k).filter fun w => !decide (w.key = (s.clients c).key ∧ w.client = c) :=
    Table.lookup_deleteWhere s.watchers _
  have hgone : ∀ k, s.watchers.lookup k = none → (s.lose c).watchers.lookup k = none := by
    intro k hk
    rw [hlookup,hk]
    rfl
  refine ⟨fun k hk => ?_,hinv.unborn,hinv.clients,fun w hw => h.registered w (List.mem_of_mem_filter hw),
    fun i key k hk => hgone key (h.unwatching i key k hk),fun key hkey => hgone key (h.stopped key hkey),h.fresh⟩
  have hk' : (s.setStatus c .lost).Connected k := hk
  rcases hinv.owned k hk' with ⟨w,hw,hclient⟩ | hopening
  · refine .inl ⟨w,?_,hclient⟩
    have hne : w.client ≠ c := by
      rw [hclient]
      exact (hk'.of_setStatus (by simp)).1
    rw [hlookup]
    refine Option.filter_eq_some_iff.mpr ⟨hw,?_⟩
    simp [hne]
  · exact .inr hopening

theorem idleInv_watch (key folder : JsString) (now : Nat) (h : IdleInv s) : IdleInv (s.watch key folder now) := by
  rw [IdleState.watch]
  split
  · rename_i w hw
    obtain rfl := Table.key_of_lookup hw
    split
    · exact (idleInv_touch w.key now h).complete (.inl rfl)
    · exact (idleInv_discard h hw).addCall (by simp) (by simp) (by simp)
  · refine (idleInv_newClient key h).addCall (fun key' folder' c hc => ?_) (by simp) (by simp)
    obtain ⟨rfl,-,rfl⟩ : key = key' ∧ folder = folder' ∧ s.nextClient = c := by simpa using hc
    exact ⟨Nat.lt_succ_self _,congrArg IdleClient.key (if_pos rfl)⟩

theorem idleInv_unwatch (key : JsString) (h : IdleInv s) : IdleInv (s.unwatch key) := by
  rw [IdleState.unwatch]
  split
  · rename_i hnone
    refine h.complete (.inr fun key' hkey => ?_)
    rw [of_decide_eq_true hkey]
    exact hnone
  · rename_i w hw
    obtain rfl := Table.key_of_lookup hw
    refine (idleInv_discard h hw).addCall (by simp) (by simp) fun key' c hc => ?_
    obtain ⟨rfl,-⟩ : w.key = key' ∧ w.client = c := by simpa using hc
    rw [s.lookup_discard,if_pos rfl]

/-- The loops of `purgeSession` and `sweepIdle` over some of the watchers. -/
theorem idleInv_discardWhere (p : Watcher → Bool) (h : IdleInv s) :
    IdleInv ((s.watchers.rows.filter p).foldl IdleState.discard s) ∧
      ∀ k w, ((s.watchers.rows.filter p).foldl IdleState.discard s).watchers.lookup k = some w → p w = false := by
  have hlisted : ∀ w ∈ s.watchers.rows.filter p, s.watchers.lookup w.key = some w :=
    fun w hw => Table.lookup_of_mem (List.mem_of_mem_filter hw)
  obtain ⟨hinv,hlookup,-⟩ := idleInv_discards _ h hlisted (s.watchers.unique.sublist (List.filter_sublist.map _))
  refine ⟨hinv,fun k w hw => Bool.eq_false_iff.mpr fun hp => ?_⟩
  rw [hlookup] at hw
  split at hw
  · simp at hw
  · rename_i hnotMem
    obtain ⟨hrow,hkey⟩ := Table.lookup_eq_some.mp hw
    exact hnotMem (hkey ▸ List.mem_map_of_mem (List.mem_filter.mpr ⟨hrow,hp⟩))

theorem idleInv_purgeSession (sessionId : JsString) (h : IdleInv s) : IdleInv (s.purgeSession sessionId) := by
  obtain ⟨hinv,hleft⟩ := idleInv_discardWhere (fun w => (imapPrefix sessionId).isPrefixOf w.key) h
  refine hinv.complete (.inr fun key hkey => ?_)
  cases hlookup : ((s.watchers.rows.filter fun w => (imapPrefix sessionId).isPrefixOf w.key).foldl
    IdleState.discard s).watchers.lookup key with
  | none => rfl
  | some w =>
    have hp := hleft key w hlookup
    rw [Table.key_of_lookup hlookup,hkey] at hp
    simp at hp

/-- A call of `watch` that has stopped the old client starts a new one. -/
theorem idleInv_starts (h : IdleInv s) (hcall : s.calls i = some (.watch key folder (.stopping c))) :
    IdleInv ((s.newClient key).setCall i (some (.watch key folder (.connecting s.nextClient)))) := by
  have hi : i < s.nextCall := Nat.lt_of_not_le fun hle => by simp [h.fresh i hle] at hcall
  refine (idleInv_newClient key h).setCall (.inl hi) (fun key' folder' c' hc' => ?_) (fun key' folder' c' hc' => ?_) (by simp) (by simp)
  · have hopening : s.calls i = some (.watch key' folder' (.opening c')) := hc'
    rw [hcall] at hopening
    simp at hopening
  · obtain ⟨rfl,-,rfl⟩ : key = key' ∧ folder = folder' ∧ s.nextClient = c' := by simpa using hc'
    exact ⟨Nat.lt_succ_self _,congrArg IdleClient.key (if_pos rfl)⟩

theorem idleInv_unwatched (h : IdleInv s) (hcall : s.calls i = some (.unwatch key c)) :
    IdleInv ((s.setCall i none).complete (· = key) .unwatch) := by
  have hinv : IdleInv (s.setCall i none) := h.setCall (.inr rfl) (by simp [hcall]) (by simp) (by simp) (by simp)
  refine hinv.complete (.inr fun key' hkey => ?_)
  rw [of_decide_eq_true hkey]
  exact h.unwatching i key c hcall

theorem idleInv_connectFailed (h : IdleInv s) (hcall : s.calls i = some (.watch key folder (.connecting c))) :
    IdleInv ((s.setStatus c .lost).setCall i none) := by
  refine (idleInv_setStatus c h (by simp)).setCall (.inr rfl) (fun key' folder' c' hc' => ?_) (by simp) (by simp) (by simp)
  have hopening : s.calls i = some (.watch key' folder' (.opening c')) := hc'
  rw [hcall] at hopening
  simp at hopening

/-- The client of a call is registered where no other one is connected under the key and
nobody unwatches it. -/
theorem idleInv_opened (h : IdleInv s) (now : Nat) (ha : undisturbed s (.opened i now) = true)
    (hcall : s.calls i = some (.watch key folder (.opening c))) :
    IdleInv (((s.register key folder c now).setCall i none).complete (· = key) .watch) := by
  simp only [undisturbed,hcall,Bool.and_eq_true,List.all_eq_true,List.mem_range,Bool.not_eq_true'] at ha
  have hother : ∀ w, s.watchers.lookup key = some w → ¬s.Connected w.client := by
    intro w hw hconn
    have hunusable := Option.all_eq_true _ _ |>.mp ha.1 w hw
    simp [hconn.usable] at hunusable
  have hunwatch : ∀ j client, s.calls j ≠ some (.unwatch key client) := by
    intro j client hj
    have hlt : j < s.nextCall := Nat.lt_of_not_le fun hle => by simp [h.fresh j hle] at hj
    have hnone := ha.2 j hlt
    simp [hj,IdleCall.isUnwatch] at hnone
  obtain ⟨hlt,hkey⟩ := h.clients i key folder c (.inr hcall)
  obtain ⟨hinv,hregistered⟩ := idleInv_register folder now h hlt hkey hother hunwatch
  refine hinv.setCall (.inr rfl) (fun key' folder' c' hc' _ => ?_) (by simp) (by simp) (by simp)
  have hopening : s.calls i = some (.watch key' folder' (.opening c')) := hc'
  rw [hcall] at hopening
  obtain ⟨-,-,rfl⟩ : key = key' ∧ folder = folder' ∧ c = c' := by simpa using hopening
  exact hregistered

theorem idleInv_openFailed (h : IdleInv s) (ha : undisturbed s (.openFailed i) = true)
    (hcall : s.calls i = some (.watch key folder (.opening c))) : IdleInv (s.setCall i none) := by
  simp only [undisturbed,hcall,Bool.not_eq_true'] at ha
  refine h.setCall (.inr rfl) (fun key' folder' c' hc' hconn => ?_) (by simp) (by simp) (by simp)
  rw [hcall] at hc'
  obtain ⟨-,-,rfl⟩ : key = key' ∧ folder = folder' ∧ c = c' := by simpa using hc'
  simp [hconn.usable] at ha

theorem idle_step {a : IdleAction} (h : IdleInv s) (ha : undisturbed s a = true) (hstep : idleStep ttlMs s a = some t) : IdleInv t := by
  cases a with
  | watch sessionId mailboxId folder now =>
    cases hstep
    exact idleInv_watch _ folder now h
  | unwatch sessionId mailboxId =>
    cases hstep
    exact idleInv_unwatch _ h
  | purgeSession sessionId =>
    cases hstep
    exact idleInv_purgeSession sessionId h
  | sweepIdle now =>
    cases hstep
    exact (idleInv_discardWhere _ h).1
  | stopped c =>
    rw [idleStep] at hstep
    split at hstep
    · cases hstep
      exact idleInv_setStatus c h (by simp)
    · simp at hstep
  | proceed i =>
    simp only [idleStep] at hstep
    split at hstep
    · rename_i key folder c hcall
      split at hstep
      · cases hstep
        exact idleInv_starts h hcall
      · simp at hstep
    · rename_i key c hcall
      split at hstep
      · cases hstep
        exact idleInv_unwatched h hcall
      · simp at hstep
    · simp at hstep
  | connected i =>
    simp only [idleStep] at hstep
    split at hstep
    · rename_i key folder c hcall
      cases hstep
      exact idleInv_connected h hcall
    · simp at hstep
  | connectFailed i =>
    simp only [idleStep] at hstep
    split at hstep
    · rename_i key folder c hcall
      cases hstep
      exact idleInv_connectFailed h hcall
    · simp at hstep
  | opened i now =>
    simp only [idleStep] at hstep
    split at hstep
    · rename_i key folder c hcall
      cases hstep
      exact idleInv_opened h now ha hcall
    · simp at hstep
  | openFailed i =>
    simp only [idleStep] at hstep
    split at hstep
    · rename_i key folder c hcall
      cases hstep
      exact idleInv_openFailed h ha hcall
    · simp at hstep
  | lose c =>
    rw [idleStep] at hstep
    split at hstep
    · cases hstep
      exact idleInv_lose c h
    · simp at hstep

/-- As long as calls of `watch` are undisturbed, every connected client is the one
registered under its key once no call is in flight, and none of a key is connected whose
last call was `unwatch` or a purge. -/
theorem one_watcher_per_view (ttlMs : Nat) {s : IdleState} (hrun : Run (idleStep ttlMs) (fun s a => undisturbed s a = true) .initial s)
    (hidle : s.Idle) :
    (∀ c, s.Connected c → s.Registered c) ∧
    (∀ c c', s.Connected c → s.Connected c' → (s.clients c).key = (s.clients c').key → c = c') ∧
    ∀ key, s.last key = some .unwatch ∨ s.last key = some .purgeSession → ∀ c, (s.clients c).key = key → ¬s.Connected c := by
  have hinv : IdleInv s := hrun.invariant (fun _ _ _ h ha hstep => idle_step h ha hstep) idleInv_initial
  have hregistered : ∀ c, s.Connected c → s.Registered c := by
    intro c hc
    refine (hinv.owned c hc).resolve_right ?_
    rintro ⟨i,folder,hi⟩
    have hlt : i < s.nextCall := Nat.lt_of_not_le fun hle => by simp [hinv.fresh i hle] at hi
    simp [hidle.1 i hlt] at hi
  refine ⟨hregistered,fun c c' hc hc' hkey => ?_,fun key hlast c hkey hc => ?_⟩
  · obtain ⟨w,hw,rfl⟩ := hregistered c hc
    obtain ⟨w',hw',rfl⟩ := hregistered c' hc'
    rw [hkey,hw',Option.some.injEq] at hw
    rw [hw]
  · obtain ⟨w,hw,-⟩ := hregistered c hc
    rw [hkey,hinv.stopped key hlast] at hw
    simp at hw

instance (s : IdleState) : Decidable s.Idle :=
  inferInstanceAs (Decidable ((∀ i < s.nextCall, s.calls i = none) ∧ ∀ c < s.nextClient, (s.clients c).status ≠ .closing))

structure IdleView where
  idle : Bool
  statuses : List IdleStatus
  registered : List Nat
  last : Option IdleCallKind
  deriving DecidableEq

def idleView (s : IdleState) : IdleView :=
  ⟨s.Idle,(List.range s.nextClient).map fun c => (s.clients c).status,s.watchers.rows.map Watcher.client,
    s.last (imapKey (js "s") (js "m"))⟩

/-- The view is watched, watched again in another folder, and left. -/
def watchActions : List IdleAction := [.watch (js "s") (js "m") (js "INBOX") 0,.connected 0,.opened 0 1,
  .watch (js "s") (js "m") (js "Sent") 2,.stopped 0,.proceed 1,.connected 1,.opened 1 3,.unwatch (js "s") (js "m"),.stopped 1,.proceed 2]

theorem one_watcher_until_unwatch : ∃ s, Run (idleStep 60000) (fun s a => undisturbed s a = true) .initial s ∧ s.Idle ∧
    s.last (imapKey (js "s") (js "m")) = some .unwatch ∧ ∀ c, (s.clients c).key = imapKey (js "s") (js "m") → ¬s.Connected c := by
  have htrace : (runActions (idleStep 60000) (fun s a => undisturbed s a = true) .initial watchActions).map idleView =
      some ⟨true,[.released,.released],[],some .unwatch⟩ := by
    decide +kernel
  obtain ⟨s,hs,hview⟩ := Option.map_eq_some_iff.mp htrace
  have hrun := Run.of_actions hs
  have hidle : s.Idle := of_decide_eq_true (congrArg IdleView.idle hview)
  have hlast : s.last (imapKey (js "s") (js "m")) = some .unwatch := congrArg IdleView.last hview
  exact ⟨s,hrun,hidle,hlast,(one_watcher_per_view 60000 hrun hidle).2.2 _ (.inl hlast)⟩

/-- The folder cannot be opened: the call throws with its client connected. -/
theorem failed_open_leaks : ∃ s, Run (idleStep 60000) (fun _ _ => True) .initial s ∧ s.Idle ∧ ∃ c, s.Connected c ∧ ¬s.Registered c := by
  have htrace : (runActions (idleStep 60000) (fun _ _ => True) .initial
      [.watch (js "s") (js "m") (js "Gone") 0,.connected 0,.openFailed 0]).map idleView = some ⟨true,[.connected],[],none⟩ := by
    decide +kernel
  obtain ⟨s,hs,hview⟩ := Option.map_eq_some_iff.mp htrace
  have hstatuses : (List.range s.nextClient).map (fun c => (s.clients c).status) = [.connected] := congrArg IdleView.statuses hview
  have hnext : s.nextClient = 1 := by simpa using congrArg List.length hstatuses
  have hconnected : s.Connected 0 := by simpa [hnext,IdleState.Connected] using hstatuses
  have hempty : s.watchers.rows = [] := List.map_eq_nil_iff.mp (congrArg IdleView.registered hview)
  refine ⟨s,Run.of_actions hs,of_decide_eq_true (congrArg IdleView.idle hview),0,hconnected,?_⟩
  rintro ⟨w,hw,-⟩
  have hrow := (Table.lookup_eq_some.mp hw).1
  rw [hempty] at hrow
  exact List.not_mem_nil hrow

end Invariant
end JustMail.Webmail
