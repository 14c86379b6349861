import JustMail.Webmail.ViewCache

/-! When a bust is complete. The index of a mailbox holds the keys of all its live views
and outlives them, as long as no view is written between the SMEMBERS and the DEL of a
bust that does not know its key. -/
namespace JustMail.Webmail.WebmailCache
open Foundation

section Store
variable {ttl : Nat} {r : ViewStore} {now : Nat} {b b' : Scope} {v v' : View}

theorem find_of_read {key raw : JsString} (h : read r now key = some raw) : r.find now key ≠ none := by
  intro hnone
  simp [read,Keyspace.get,hnone] at h

/-- The index of every mailbox is a set of keys of its views and expires no earlier than
any of the views. -/
structure Indexed (ttl : Nat) (r : ViewStore) (now : Nat) : Prop where
  index : ∀ b e, r.find now (Scope.index b) = some e →
    ∃ members expiresAt, e = ⟨.set members,some expiresAt⟩ ∧ expiresAt ≤ now + ttl ∧ ∀ k ∈ members, ∃ v, k = b.viewKey v
  covered : ∀ b v e, r.find now (Scope.viewKey b v) = some e →
    ∃ members expiresAt until₀, r.find now b.index = some ⟨.set members,some expiresAt⟩ ∧ b.viewKey v ∈ members ∧
      e.expiresAt = some until₀ ∧ until₀ ≤ expiresAt

theorem indexed_empty : Indexed ttl .empty now := ⟨by simp,by simp⟩

theorem Indexed.wait (h : Indexed ttl r now) {later : Nat} (hle : now ≤ later) : Indexed ttl r later := by
  constructor
  · intro b e he
    rw [r.find_later hle] at he
    obtain ⟨members,expiresAt,rfl,hexpires,hmembers⟩ := h.index b e (Option.filter_eq_some_iff.mp he).1
    exact ⟨members,expiresAt,rfl,by omega,hmembers⟩
  · intro b v e he
    rw [r.find_later hle] at he
    obtain ⟨hfind,halive⟩ := Option.filter_eq_some_iff.mp he
    obtain ⟨members,expiresAt,until₀,hindex,hmem,huntil,hexpires⟩ := h.covered b v e hfind
    refine ⟨members,expiresAt,until₀,?_,hmem,huntil,hexpires⟩
    -- The view is alive, so its index is.
    have hlater : later < until₀ := by simpa [Entry.alive,huntil] using halive
    rw [r.find_later hle,hindex]
    exact Option.filter_eq_some_iff.mpr ⟨rfl,by simp; omega⟩

theorem Indexed.smembers (h : Indexed ttl r now) (b : Scope) :
    ∃ old, r.smembers now b.index = some old ∧ (∀ k ∈ old, ∃ v, k = b.viewKey v) ∧
      ∀ v, r.find now (b.viewKey v) ≠ none → b.viewKey v ∈ old := by
  have hcovered (v : View) (hv : r.find now (b.viewKey v) ≠ none) :
      ∃ members expiresAt, r.find now b.index = some ⟨.set members,some expiresAt⟩ ∧ b.viewKey v ∈ members := by
    obtain ⟨e,he⟩ := Option.ne_none_iff_exists'.mp hv
    obtain ⟨members,expiresAt,_,hindex,hmem,-⟩ := h.covered b v e he
    exact ⟨members,expiresAt,hindex,hmem⟩
  rw [Keyspace.smembers]
  cases hfind : r.find now b.index with
  | none =>
    refine ⟨[],rfl,by simp,fun v hv => ?_⟩
    obtain ⟨_,_,hindex,-⟩ := hcovered v hv
    simp [hfind] at hindex
  | some e =>
    obtain ⟨members,expiresAt,rfl,-,hmembers⟩ := h.index b e hfind
    refine ⟨members,rfl,hmembers,fun v hv => ?_⟩
    obtain ⟨_,_,hindex,hmem⟩ := hcovered v hv
    obtain ⟨rfl,-⟩ : members = _ ∧ _ := by simpa [hfind] using hindex
    exact hmem

/-- What the transaction of `write` leaves. -/
theorem find_write (hpos : 0 < ttl) (h : Indexed ttl r now) (b : Scope) (v : View) (json : JsString) :
    ∃ members, b.viewKey v ∈ members ∧ (∀ k ∈ members, ∃ v, k = b.viewKey v) ∧
      (∀ v, r.find now (b.viewKey v) ≠ none → b.viewKey v ∈ members) ∧
      ∀ k, (write ttl r now b.sessionId.text b.mailboxId.text (b.viewKey v) json).find now k =
        if k = b.index then some ⟨.set members,some (now + ttl)⟩
        else if k = b.viewKey v then some ⟨.string json,some (now + ttl)⟩ else r.find now k := by
  obtain ⟨old,hold,hviews,hall⟩ := h.smembers b
  have hset : (r.setEx now (b.viewKey v) (.string json) ttl).find now b.index = r.find now b.index := by
    rw [Keyspace.find_setEx _ _ _ _ hpos,if_neg viewKey_ne_index.symm]
  have hsame : (r.setEx now (b.viewKey v) (.string json) ttl).smembers now b.index = some old := by
    rw [← hold,Keyspace.smembers,hset,Keyspace.smembers]
  obtain ⟨members,expiresAt,hsadd,hmem⟩ := Keyspace.find_sadd_self _ now hsame (b.viewKey v)
  refine ⟨members,(hmem _).mpr (.inl rfl),?_,fun v' hv' => (hmem _).mpr (.inr (hall v' hv')),?_⟩
  · intro k hk
    rcases (hmem k).mp hk with rfl | hk
    · exact ⟨v,rfl⟩
    · exact hviews k hk
  · intro k
    have hwrite : write ttl r now b.sessionId.text b.mailboxId.text (b.viewKey v) json =
        ((r.setEx now (b.viewKey v) (.string json) ttl).sadd now b.index (b.viewKey v)).expire now b.index ttl := rfl
    rw [hwrite,Keyspace.find_expire _ _ _ hpos]
    by_cases hk : k = b.index
    · rw [if_pos hk,if_pos hk,hsadd]
      rfl
    · rw [if_neg hk,if_neg hk,Keyspace.find_sadd_ne _ _ _ hk,Keyspace.find_setEx _ _ _ _ hpos]

theorem Indexed.write (hpos : 0 < ttl) (h : Indexed ttl r now) (b : Scope) (v : View) (json : JsString) :
    Indexed ttl (write ttl r now b.sessionId.text b.mailboxId.text (b.viewKey v) json) now := by
  obtain ⟨members,hkey,hviews,hold,hfind⟩ := find_write hpos h b v json
  constructor
  · intro b' e he
    rw [hfind] at he
    by_cases hb : b' = b
    · subst hb
      rw [if_pos rfl] at he
      exact ⟨members,now + ttl,(Option.some.inj he).symm,Nat.le_refl _,hviews⟩
    · rw [if_neg (mt index_inj.mp hb),if_neg viewKey_ne_index.symm] at he
      exact h.index b' e he
  · intro b' v' e he
    rw [hfind,if_neg viewKey_ne_index] at he
    rw [hfind]
    by_cases hb : b' = b
    · subst hb
      rw [if_pos rfl]
      by_cases hv : v' = v
      · subst hv
        rw [if_pos rfl] at he
        cases he
        exact ⟨members,now + ttl,now + ttl,rfl,hkey,rfl,Nat.le_refl _⟩
      · rw [if_neg fun heq => hv (viewKey_inj.mp heq).2] at he
        -- The index now lasts as long as any key written so far can.
        obtain ⟨_,expiresAt,until₀,hindex,-,huntil,hexpires⟩ := h.covered b' v' e he
        obtain ⟨_,_,heq,hbound,-⟩ := h.index b' _ hindex
        obtain ⟨-,rfl⟩ : _ ∧ expiresAt = _ := by simpa using heq
        exact ⟨members,now + ttl,until₀,rfl,hold v' (by rw [he]; simp),huntil,hexpires.trans hbound⟩
    · rw [if_neg fun heq => hb (viewKey_inj.mp heq).1] at he
      rw [if_neg (mt index_inj.mp hb),if_neg viewKey_ne_index.symm]
      exact h.covered b' v' e he

/-- Deleting the index of a mailbox with all its live views. -/
theorem Indexed.del (h : Indexed ttl r now) {keys : List JsString} (hviews : ∀ k ∈ keys, ∃ v, k = b.viewKey v)
    (hall : ∀ v, r.find now (b.viewKey v) ≠ none → b.viewKey v ∈ keys) : Indexed ttl (r.del (keys ++ [b.index])) now := by
  have hkept (b' : Scope) (hb : b' ≠ b) : (r.del (keys ++ [b.index])).find now b'.index = r.find now b'.index := by
    rw [Keyspace.find_del,if_neg]
    intro hmem
    rcases List.mem_append.mp hmem with hmem | hmem
    · obtain ⟨v,hv⟩ := hviews _ hmem
      exact viewKey_ne_index hv.symm
    · exact hb (index_inj.mp (List.mem_singleton.mp hmem))
  constructor
  · intro b' e he
    by_cases hb : b' = b
    · subst hb
      simp [Keyspace.find_del] at he
    · rw [hkept b' hb] at he
      exact h.index b' e he
  · intro b' v e he
    rw [Keyspace.find_del] at he
    split at he
    · simp at he
    · rename_i hmem
      by_cases hb : b' = b
      · subst hb
        exact absurd (List.mem_append_left _ (hall v (by rw [he]; simp))) hmem
      · rw [hkept b' hb]
        exact h.covered b' v e he

end Store

section Invariant
variable {ttl : Nat} {s t : CacheState} {i : Nat} {scope : Scope} {view : View} {json : JsString} {startedAt : Nat}
  {keys : List JsString}

def CacheState.Live (s : CacheState) (b : Scope) (v : View) : Prop := s.redis.find s.now (b.viewKey v) ≠ none

def CacheState.WrittenSince (s : CacheState) (b : Scope) (v : View) (since : Nat) : Prop :=
  ∃ w ∈ s.sets, w.scope = b ∧ w.view = v ∧ ∃ at₁ ∈ w.wroteAt, since < at₁

/-- The keys that a bust is about to delete are those of views of its mailbox, among
them all that are live; after a bust only views are live that were written since. -/
def BustSound (s : CacheState) (b : BustCall) : Prop :=
  match b.phase with
  | .called => True
  | .listed keys => (∀ k ∈ keys, ∃ v, k = b.scope.viewKey v) ∧ ∀ v, s.Live b.scope v → b.scope.viewKey v ∈ keys
  | .finished => ∀ v, s.Live b.scope v → s.WrittenSince b.scope v b.startedAt
  | .failed => True

structure CacheInv (ttl : Nat) (s : CacheState) : Prop where
  indexed : Indexed ttl s.redis s.now
  started : ∀ b ∈ s.busts, b.startedAt < s.clock
  sound : ∀ b ∈ s.busts, BustSound s b

theorem cacheInv_initial : CacheInv ttl .initial :=
  ⟨indexed_empty,by simp [CacheState.initial],by simp [CacheState.initial]⟩

/-- A bust stays sound where no more views are live and no transaction is forgotten. -/
theorem BustSound.mono {b : BustCall} (h : BustSound s b) (hlive : ∀ v, t.Live b.scope v → s.Live b.scope v)
    (hwritten : ∀ v, s.WrittenSince b.scope v b.startedAt → t.WrittenSince b.scope v b.startedAt) : BustSound t b := by
  obtain ⟨scope,startedAt,phase⟩ := b
  cases phase with
  | called => trivial
  | failed => trivial
  | listed keys => exact ⟨h.1,fun v hv => h.2 v (hlive v hv)⟩
  | finished => exact fun v hv => hwritten v (h v (hlive v hv))

theorem CacheInv.wait (h : CacheInv ttl s) (seconds : Nat) : CacheInv ttl { s with now := s.now + seconds } := by
  refine ⟨h.indexed.wait (Nat.le_add_right _ _),h.started,fun b hb => (h.sound b hb).mono (fun v hv hnone => hv ?_) fun _ => id⟩
  dsimp only
  rw [Keyspace.find_later _ (Nat.le_add_right s.now seconds),hnone]
  rfl

theorem CacheInv.set (h : CacheInv ttl s) (scope : Scope) (view : View) (json : JsString) :
    CacheInv ttl { s with sets := s.sets ++ [⟨scope,view,json,none⟩] } := by
  refine ⟨h.indexed,h.started,fun b hb => (h.sound b hb).mono (fun _ => id) ?_⟩
  rintro v ⟨w,hw,hwritten⟩
  exact ⟨w,List.mem_append_left _ hw,hwritten⟩

/-- No bust of the mailbox is between SMEMBERS and DEL without the key of the view. -/
def unraced (s : CacheState) : CacheAction → Bool
  | .exec i =>
    match s.sets[i]? with
    | some w => s.busts.all fun b =>
      match b.phase with
      | .listed keys => b.scope != w.scope || keys.contains (w.scope.viewKey w.view)
      | _ => true
    | none => true
  | _ => true

theorem CacheInv.exec (hpos : 0 < ttl) (h : CacheInv ttl s) (hi : s.sets[i]? = some ⟨scope,view,json,none⟩)
    (hfree : unraced s (.exec i) = true) :
    CacheInv ttl { s with
      redis := write ttl s.redis s.now scope.sessionId.text scope.mailboxId.text (scope.viewKey view) json
      clock := s.clock + 1
      sets := s.sets.set i ⟨scope,view,json,some s.clock⟩ } := by
  obtain ⟨members,-,-,-,hfind⟩ := find_write hpos h.indexed scope view json
  have hlive (b : Scope) (v : View)
      (hv : (write ttl s.redis s.now scope.sessionId.text scope.mailboxId.text (scope.viewKey view) json).find
        s.now (b.viewKey v) ≠ none) :
      (b = scope ∧ v = view) ∨ s.Live b v := by
    rw [hfind,if_neg viewKey_ne_index] at hv
    split at hv
    · rename_i heq
      exact .inl (viewKey_inj.mp heq)
    · exact .inr hv
  have hwritten {b : Scope} {v : View} {since : Nat} (hw : s.WrittenSince b v since) :
      ∃ w ∈ s.sets.set i ⟨scope,view,json,some s.clock⟩, w.scope = b ∧ w.view = v ∧ ∃ at₁ ∈ w.wroteAt, since < at₁ := by
    obtain ⟨w,hw,hsame⟩ := hw
    refine ⟨w,?_,hsame⟩
    obtain ⟨j,hj⟩ := List.mem_iff_getElem?.mp hw
    refine List.mem_iff_getElem?.mpr ⟨j,?_⟩
    by_cases hij : i = j
    · -- The call that is carried out has written nothing before.
      subst hij
      obtain rfl := Option.some.inj (hi.symm.trans hj)
      simp at hsame
    · rw [List.getElem?_set_ne hij,hj]
  refine ⟨h.indexed.write hpos scope view json,fun b hb => Nat.lt_succ_of_lt (h.started b hb),fun b hb => ?_⟩
  have hsound := h.sound b hb
  simp only [unraced,hi,List.all_eq_true] at hfree
  have hb' := hfree b hb
  obtain ⟨bscope,startedAt,phase⟩ := b
  cases phase with
  | called => trivial
  | failed => trivial
  | listed keys =>
    refine ⟨hsound.1,fun v hv => ?_⟩
    rcases hlive _ v hv with ⟨hscope,rfl⟩ | hv
    · dsimp only at hscope hb' ⊢
      subst hscope
      simpa using hb'
    · exact hsound.2 v hv
  | finished =>
    intro v hv
    rcases hlive _ v hv with ⟨hscope,rfl⟩ | hv
    · obtain ⟨hlt,-⟩ := List.getElem?_eq_some_iff.mp hi
      exact ⟨⟨scope,v,json,some s.clock⟩,List.mem_iff_getElem.mpr ⟨i,by simpa using hlt,by simp⟩,hscope.symm,rfl,
        s.clock,rfl,h.started _ hb⟩
    · exact hwritten (hsound v hv)

theorem CacheInv.bustMailbox (h : CacheInv ttl s) (scope : Scope) :
    CacheInv ttl { s with clock := s.clock + 1, busts := s.busts ++ [⟨scope,s.clock,.called⟩] } := by
  refine ⟨h.indexed,fun b hb => ?_,fun b hb => ?_⟩
  · rcases List.mem_append.mp hb with hb | hb
    · exact Nat.lt_succ_of_lt (h.started b hb)
    · obtain rfl := List.mem_singleton.mp hb
      exact Nat.lt_succ_self _
  · rcases List.mem_append.mp hb with hb | hb
    · exact (h.sound b hb).mono (fun _ => id) fun _ => id
    · obtain rfl := List.mem_singleton.mp hb
      trivial

theorem CacheInv.started_set {phase phase' : BustPhase} (h : CacheInv ttl s) (hi : s.busts[i]? = some ⟨scope,startedAt,phase⟩) :
    ∀ b ∈ s.busts.set i ⟨scope,startedAt,phase'⟩, b.startedAt < s.clock := by
  intro b hb
  have hcall := h.started _ (List.mem_of_getElem? hi)
  rcases List.mem_or_eq_of_mem_set hb with hb | rfl
  · exact h.started b hb
  · exact hcall

theorem CacheInv.smembers (h : CacheInv ttl s) (hi : s.busts[i]? = some ⟨scope,startedAt,.called⟩) :
    ∃ keys, s.redis.smembers s.now scope.index = some keys ∧
      CacheInv ttl { s with busts := s.busts.set i ⟨scope,startedAt,.listed keys⟩ } := by
  obtain ⟨keys,hkeys,hviews,hall⟩ := h.indexed.smembers scope
  refine ⟨keys,hkeys,h.indexed,h.started_set hi,fun b hb => ?_⟩
  rcases List.mem_or_eq_of_mem_set hb with hb | rfl
  · exact (h.sound b hb).mono (fun _ => id) fun _ => id
  · exact ⟨hviews,hall⟩

theorem CacheInv.del (h : CacheInv ttl s) (hi : s.busts[i]? = some ⟨scope,startedAt,.listed keys⟩) :
    CacheInv ttl { s with
      redis := s.redis.del (keys ++ [scope.index])
      busts := s.busts.set i ⟨scope,startedAt,.finished⟩ } := by
  obtain ⟨hviews,hall⟩ := h.sound _ (List.mem_of_getElem? hi)
  refine ⟨h.indexed.del hviews hall,h.started_set hi,fun b hb => ?_⟩
  rcases List.mem_or_eq_of_mem_set hb with hb | rfl
  · refine (h.sound b hb).mono (fun v hv hnone => hv ?_) fun _ => id
    simp [Keyspace.find_del,hnone]
  · -- None of the views of the mailbox is left.
    intro v hv
    by_cases hlive : s.Live scope v
    · simp [CacheState.Live,Keyspace.find_del,hall v hlive] at hv
    · rw [CacheState.Live,not_not] at hlive
      simp [CacheState.Live,Keyspace.find_del,hlive] at hv

theorem cache_step (hpos : 0 < ttl) {a : CacheAction} (h : CacheInv ttl s) (ha : unraced s a = true)
    (hstep : cacheStep ttl s a = some t) : CacheInv ttl t := by
  cases a with
  | wait seconds =>
    cases hstep
    exact h.wait seconds
  | set scope view json =>
    cases hstep
    exact h.set scope view json
  | exec i =>
    rw [cacheStep] at hstep
    split at hstep
    · rename_i hi
      cases hstep
      exact h.exec hpos hi ha
    · simp at hstep
  | bustMailbox scope =>
    cases hstep
    exact h.bustMailbox scope
  | smembers i =>
    rw [cacheStep] at hstep
    split at hstep
    · rename_i hi
      obtain ⟨keys,hkeys,hinv⟩ := h.smembers hi
      rw [hkeys] at hstep
      cases hstep
      exact hinv
    · simp at hstep
  | del i =>
    rw [cacheStep] at hstep
    split at hstep
    · rename_i hi
      cases hstep
      exact h.del hi
    · simp at hstep

theorem bustComplete_of_inv (h : CacheInv ttl s) : BustComplete s := by
  intro b hb hphase w hw hscope _
  have hsound := h.sound b hb
  rw [BustSound,hphase] at hsound
  cases hview : s.view w.scope w.view with
  | none => exact .inl rfl
  | some raw =>
    have hlive : s.Live b.scope w.view := hscope ▸ find_of_read hview
    obtain ⟨w',hw',hscope',hsince⟩ := hsound w.view hlive
    exact .inr ⟨w',hw',hscope'.trans hscope.symm,hsince⟩

/-- A bust is complete in every run in which no view is written between the SMEMBERS and
the DEL of a bust that does not know its key. -/
theorem bust_complete {ttl : Nat} (hpos : 0 < ttl) {s : CacheState}
    (hrun : Run (cacheStep ttl) (fun s a => unraced s a = true) .initial s) : BustComplete s :=
  bustComplete_of_inv (hrun.invariant (fun _ _ _ h ha hstep => cache_step hpos h ha hstep) cacheInv_initial)

def someUuid (c : Char) (h : isUuidUnit (unit c) = true) : UuidText where
  text := List.replicate 36 (unit c)
  length := List.length_replicate
  units _ hd := (List.eq_of_mem_replicate hd).symm ▸ h

def someScope : Scope := ⟨someUuid 'a' (by decide),someUuid 'b' (by decide)⟩

/-- A view is written, dropped by a bust and written again. -/
def bustActions : List CacheAction :=
  [.set someScope .folders (js "1"),.exec 0,.bustMailbox someScope,.smembers 0,.del 0,.set someScope .folders (js "2"),.exec 1]

theorem bust_complete_rewritten : ∃ s, Run (cacheStep 20) (fun s a => unraced s a = true) .initial s ∧
    s.view someScope .folders = some (js "2") ∧ BustComplete s := by
  have htrace : (runActions (cacheStep 20) (fun s a => unraced s a = true) .initial bustActions).map (·.view someScope .folders) =
      some (some (js "2")) := by
    decide +kernel
  obtain ⟨s,hs,hview⟩ := Option.map_eq_some_iff.mp htrace
  have hrun := Run.of_actions hs
  exact ⟨s,hrun,hview,bust_complete (by decide) hrun⟩

/-- A folder list is written between the SMEMBERS and the DEL of one bust and survives the next. -/
def racedActions : List CacheAction :=
  [.bustMailbox someScope,.smembers 0,.set someScope .folders (js "1"),.exec 0,.del 0,.bustMailbox someScope,.smembers 1,.del 1]

theorem raced_write_survives : ∃ s, Run (cacheStep 20) (fun _ _ => True) .initial s ∧ ¬BustComplete s := by
  have htrace : (runActions (cacheStep 20) (fun _ _ => True) .initial racedActions).map
      (fun s => (s.view someScope .folders,s.sets,s.busts)) =
      some (some (js "1"),[⟨someScope,.folders,js "1",some 1⟩],[⟨someScope,0,.finished⟩,⟨someScope,2,.finished⟩]) := by
    decide +kernel
  obtain ⟨s,hs,heq⟩ := Option.map_eq_some_iff.mp htrace
  simp only [Prod.mk.injEq] at heq
  obtain ⟨hview,hsets,hbusts⟩ := heq
  refine ⟨s,Run.of_actions hs,fun hcomplete => ?_⟩
  have hbust : (⟨someScope,2,.finished⟩ : BustCall) ∈ s.busts := by simp [hbusts]
  have hset : (⟨someScope,.folders,js "1",some 1⟩ : SetCall) ∈ s.sets := by simp [hsets]
  rcases hcomplete _ hbust rfl _ hset rfl ⟨1,rfl,by decide⟩ with hnone | ⟨w,hw,-,-,at₁,hat,hlt⟩
  · simp [hview] at hnone
  · rw [hsets,List.mem_singleton] at hw
    subst hw
    obtain rfl : 1 = at₁ := by simpa using hat
    simp at hlt

end Invariant
end JustMail.Webmail.WebmailCache
