import JustMail.Webmail.DraftAutosave

/-! The drafts that autosave leaves behind where nothing fails. -/
namespace JustMail.Webmail
open Foundation
variable {δ : Type}

section Smooth
variable {hasContent : δ → Bool} {s t : DraftState δ} {a : DraftAction δ} {draft : Option (DraftMessage δ)} {n uid : Nat}
  {call call' : SaveCall δ} {folder : DraftFolder δ}

/-- The save that the composer waits for. -/
def DraftState.Open (s : DraftState δ) (call : SaveCall δ) : Prop := ∃ n, s.saving = some n ∧ s.saves[n]? = some call

/-- The draft that is replaced has been deleted. -/
def SaveStage.past : SaveStage → Bool
  | .findDrafts | .append | .delete _ _ => false
  | .bust _ _ | .answered _ _ | .failed _ => true

def DiscardStage.pending : DiscardStage → Bool
  | .findDrafts | .delete => true
  | .bust | .ended => false

/-- The stages of a call that nothing has gone wrong with. -/
inductive SaveCall.InOrder (call : SaveCall δ) : Prop where
  | findDrafts (h : call.stage = .findDrafts)
  | append (h : call.stage = .append)
  | delete (uid replaceUid : Nat) (h : call.stage = .delete uid true) (hreplace : call.replaceUid = some replaceUid)
  | bust (uid : Nat) (h : call.stage = .bust (some uid) true)
  | answered (uid : Nat) (h : call.stage = .answered (some uid) true)

/-- Where nothing fails, a message of the composer is the draft that is known, is about to be discarded, or is the one that the save under
way has stored; and the save under way deletes the draft that is known. -/
structure SmoothInv (s : DraftState δ) : Prop where
  finished : ∀ (n : Nat) (call : SaveCall δ), s.saves[n]? = some call → s.saving ≠ some n → ∃ uid, call.stage = .answered (some uid) true
  last : ∀ n, s.saving = some n → n + 1 = s.saves.length
  order : ∀ call, s.Open call → call.InOrder ∧ (s.draftUid = none ∨ s.draftUid = call.replaceUid)
  apart : ∀ d ∈ s.discards, s.draftUid ≠ some d.uid ∧ ∀ call, s.Open call → call.stage.stored ≠ some d.uid
  gone : ∀ call, s.Open call → call.stage.past = true → ∀ m ∈ s.folder.messages.rows, call.replaceUid ≠ some m.uid
  own : ∀ m ∈ s.folder.messages.rows, s.Known m.uid → s.draftUid = some m.uid ∨
    (∃ d ∈ s.discards, d.uid = m.uid ∧ d.stage.pending = true) ∨ ∃ call, s.Open call ∧ call.stage.stored = some m.uid
  held : ∀ uid, s.draftUid = some uid → (∃ m ∈ s.folder.messages.rows, m.uid = uid) ∨
    ∃ call, s.Open call ∧ call.stage.past = true ∧ call.replaceUid = some uid
  stored : ∀ call uid, s.Open call → call.stage.stored = some uid → ∃ m ∈ s.folder.messages.rows, m.uid = uid
  recent : s.saving = none → ∀ uid call, s.draftUid = some uid → s.saves.getLast? = some call → call.stage.stored = some uid

theorem DraftInv.known_below (h : DraftInv draft s) (hknown : s.Known uid) : uid < s.folder.uidNext := by
  rcases hknown with hopened | ⟨m,content,-,hm⟩
  · exact h.numbered.below uid hopened
  · exact (h.numbered.fresh m uid content hm).1

theorem DraftInv.replaced_ne_stored (h : DraftInv draft s) (hn : s.saves[n]? = some call) (hreplace : call.replaceUid = some uid) :
    call.stage.stored ≠ some uid := by
  intro hstored
  have hrecord := DraftState.record_at hn
  have hat : StoredAt s.records n uid call.content := ⟨call.replaceUid,by rw [hrecord,SaveCall.record,hstored]⟩
  rcases h.numbered.replaced n call.record uid hrecord hreplace with hopened | ⟨m,content,hlt,hm⟩
  · exact (h.numbered.fresh n uid call.content hat).2 hopened
  · exact absurd (h.numbered.distinct m n uid content call.content hm hat) (Nat.ne_of_lt hlt)

/-- The composer does something that concerns neither its saves nor its drafts. -/
theorem SmoothInv.composer (h : SmoothInv s) (hfolder : t.folder = s.folder) (hsaves : t.saves = s.saves) (hsaving : t.saving = s.saving)
    (hopened : t.opened = s.opened) (hdiscards : t.discards = s.discards) (hdraftUid : t.draftUid = s.draftUid) : SmoothInv t := by
  obtain ⟨folder,saves,discards,posts,opened,content,timer,saving,draftUid,closed,discarded⟩ := t
  simp only at hfolder hsaves hsaving hopened hdiscards hdraftUid
  subst hfolder hsaves hsaving hopened hdiscards hdraftUid
  exact ⟨h.finished,h.last,h.order,h.apart,h.gone,h.own,h.held,h.stored,h.recent⟩

theorem SmoothInv.discardDraft (h : SmoothInv s) (hinv : DraftInv draft s) : SmoothInv s.discardDraft := by
  rw [DraftState.discardDraft]
  split
  · exact h
  · rename_i uid huid
    refine ⟨h.finished,h.last,fun call hcall => ⟨(h.order call hcall).1,.inl rfl⟩,fun d hd => ⟨by simp,fun call hcall => ?_⟩,h.gone,
      fun m hm hknown => ?_,by simp,h.stored,by simp⟩
    · rcases List.mem_append.mp hd with hd | hd
      · exact (h.apart d hd).2 call hcall
      · rw [List.mem_singleton.mp hd]
        obtain ⟨n,-,hn⟩ := id hcall
        rcases (h.order call hcall).2 with hnone | hreplace
        · simp [hnone] at huid
        · exact hinv.replaced_ne_stored hn (hreplace.symm.trans huid)
    · rcases h.own m hm hknown with hdraft | ⟨d,hd,hsame,hpending⟩ | hstored
      · refine .inr (.inl ⟨⟨uid,.findDrafts⟩,List.mem_append_right _ (List.mem_singleton_self _),?_,rfl⟩)
        exact Option.some.inj (huid.symm.trans hdraft)
      · exact .inr (.inl ⟨d,List.mem_append_left _ hd,hsame,hpending⟩)
      · exact .inr (.inr hstored)

theorem SmoothInv.autosave (h : SmoothInv s) : SmoothInv s.autosave := by
  rw [DraftState.autosave]
  split
  · exact h.composer rfl rfl rfl rfl rfl rfl
  · rename_i hsaving
    have hnone : s.saving = none := by simpa using hsaving
    let new : SaveCall δ := ⟨s.content,s.draftUid,.findDrafts⟩
    let t : DraftState δ := { s with timer := false, saving := some s.saves.length, saves := s.saves ++ [new] }
    have hopen : ∀ call, t.Open call → call = new := by
      rintro call ⟨n,hn,hcall⟩
      cases hn
      exact (Option.some.inj ((List.getElem?_concat_length ..).symm.trans hcall)).symm
    have hknown : ∀ uid, t.Known uid → s.Known uid := fun uid huid => by
      rw [← mem_own,DraftState.own,List.filterMap_append,List.filterMap_cons_none rfl,List.filterMap_nil,List.append_nil] at huid
      exact mem_own.mp huid
    have hclosed : ∀ call, ¬s.Open call := by
      rintro call ⟨n,hn,-⟩
      simp [hnone] at hn
    refine ⟨fun n call hn hne => ?_,?_,?_,?_,?_,?_,?_,?_,by simp⟩
    · rcases Nat.lt_trichotomy n s.saves.length with hlt | heq | hgt
      · exact h.finished n call ((List.getElem?_append_left hlt).symm.trans hn) (by simp [hnone])
      · exact absurd (congrArg some heq.symm) hne
      · have hbound := (List.getElem?_eq_some_iff.mp hn).1
        rw [List.length_append,List.length_singleton] at hbound
        omega
    · intro n hn
      cases hn
      simp
    · intro call hcall
      obtain rfl := hopen call hcall
      exact ⟨.findDrafts rfl,.inr rfl⟩
    · refine fun d hd => ⟨(h.apart d hd).1,fun call hcall => ?_⟩
      obtain rfl := hopen call hcall
      simp [new,SaveStage.stored]
    · intro call hcall hpast
      obtain rfl := hopen call hcall
      simp [new,SaveStage.past] at hpast
    · intro m hm huid
      rcases h.own m hm (hknown _ huid) with hdraft | hdiscard | ⟨call,hcall,-⟩
      · exact .inl hdraft
      · exact .inr (.inl hdiscard)
      · exact absurd hcall (hclosed call)
    · intro uid huid
      rcases h.held uid huid with hm | ⟨call,hcall,-⟩
      · exact .inl hm
      · exact absurd hcall (hclosed call)
    · intro call uid hcall huid
      obtain rfl := hopen call hcall
      simp [new,SaveStage.stored] at huid

theorem SaveCall.InOrder.told {uid : Option Nat} {told : Bool} (h : call.InOrder) (hstage : call.stage = .answered uid told) :
    told = true ∧ ∃ uid', uid = some uid' := by
  cases h with
  | answered uid' h =>
    obtain ⟨rfl,rfl⟩ := SaveStage.answered.inj (hstage.symm.trans h)
    exact ⟨rfl,uid',rfl⟩
  | findDrafts h | append h | delete _ _ h _ | bust _ h => simp [h] at hstage

theorem SaveCall.InOrder.not_failed {uid : Option Nat} (h : call.InOrder) : call.stage ≠ .failed uid := by
  cases h with
  | findDrafts h | append h | delete _ _ h _ | bust _ h | answered _ h => simp [h]

theorem open_unique {c : SaveCall δ} (hsaving : s.saving = some n) (hn : s.saves[n]? = some call) (hc : s.Open c) : c = call := by
  obtain ⟨n',hn',hc⟩ := hc
  cases hsaving.symm.trans hn'
  exact Option.some.inj (hc.symm.trans hn)

theorem SmoothInv.response (h : SmoothInv s) (hsaving : s.saving = some n) (hn : s.saves[n]? = some call) (hhear : s.hear call = some t) :
    SmoothInv t := by
  have hopen : s.Open call := ⟨n,hsaving,hn⟩
  obtain ⟨horder,hreplace⟩ := h.order call hopen
  rcases DraftState.hear_cases hhear with ⟨uid,told,hstage,rfl⟩ | ⟨uid,hstage,-⟩
  · obtain ⟨rfl,uid,rfl⟩ := horder.told hstage
    have hstored : call.stage.stored = some uid := congrArg SaveStage.stored hstage
    have hpast : call.stage.past = true := congrArg SaveStage.past hstage
    refine ⟨fun n' call' hn' _ => ?_,by simp,by simp [DraftState.Open],fun d hd => ⟨?_,by simp [DraftState.Open]⟩,
      by simp [DraftState.Open],fun m hm hknown => ?_,fun uid' huid => .inl ?_,by simp [DraftState.Open],
      fun _ uid' call' huid hlast => ?_⟩
    · by_cases hsame : n' = n
      · subst hsame
        obtain rfl := Option.some.inj (hn'.symm.trans hn)
        exact ⟨uid,hstage⟩
      · exact h.finished n' call' hn' fun hne => hsame (Option.some.inj (hne.symm.trans hsaving))
    · intro huid
      exact (h.apart d hd).2 call hopen (hstored.trans huid)
    · rcases h.own m hm hknown with hdraft | hdiscard | ⟨call',hcall',huid⟩
      · rcases hreplace with hnone | hreplace
        · simp [hnone] at hdraft
        · exact absurd (hreplace.symm.trans hdraft) (h.gone call hopen hpast m hm)
      · exact .inr (.inl hdiscard)
      · obtain rfl := open_unique hsaving hn hcall'
        exact .inl (hstored.symm.trans huid)
    · cases huid
      exact h.stored call uid hopen hstored
    · cases huid
      have hlength := h.last n hsaving
      rw [List.getLast?_eq_getElem?,← hlength,Nat.add_sub_cancel,hn] at hlast
      exact Option.some.inj hlast ▸ hstored
  · exact absurd hstage horder.not_failed

/-- What an access of a save that nothing goes wrong with does to the folder: nothing, an APPEND, or the deletion of the draft
that the save replaces. -/
inductive SaveMoved (s : DraftState δ) (call call' : SaveCall δ) : DraftFolder δ → Prop where
  | stays (stored : call'.stage.stored = call.stage.stored) (past : call'.stage.past = call.stage.past) : SaveMoved s call call' s.folder
  | appended (fresh : call.stage.stored = none) (early : call.stage.past = false) (stored : call'.stage.stored = some s.folder.uidNext)
      (past : call'.stage.past = true → call.replaceUid = none) : SaveMoved s call call' (s.folder.append call.content)
  | deleted (uid : Nat) (old : call.replaceUid = some uid) (stored : call'.stage.stored = call.stage.stored)
      (past : call'.stage.past = true) :
      SaveMoved s call call' (s.folder.delete uid)

theorem SaveCall.InOrder.access (h : call.InOrder) (haccess : call.access s.folder .done = some (folder,call')) :
    call'.InOrder ∧ call'.replaceUid = call.replaceUid ∧ SaveMoved s call call' folder := by
  obtain ⟨content,replaceUid,stage⟩ := call
  cases h with
  | findDrafts h =>
    obtain rfl : stage = _ := h
    cases haccess
    exact ⟨.append rfl,rfl,.stays rfl rfl⟩
  | append h =>
    obtain rfl : stage = _ := h
    cases haccess
    cases replaceUid with
    | none => exact ⟨.bust _ rfl,rfl,.appended rfl rfl rfl fun _ => rfl⟩
    | some replaceUid => exact ⟨.delete _ replaceUid rfl rfl,rfl,.appended rfl rfl rfl (by simp [SaveCall.appended,SaveStage.past])⟩
  | delete uid replaceUid h hreplace =>
    obtain rfl : stage = _ := h
    obtain rfl : _ = some replaceUid := hreplace
    cases haccess
    exact ⟨.bust uid rfl,rfl,.deleted replaceUid rfl rfl rfl⟩
  | bust uid h =>
    obtain rfl : stage = _ := h
    cases haccess
    exact ⟨.answered uid rfl,rfl,.stays rfl rfl⟩
  | answered uid h =>
    obtain rfl : stage = _ := h
    simp [SaveCall.access] at haccess

section Save
variable {c : SaveCall δ} {uid : Nat}

private abbrev DraftState.moved (s : DraftState δ) (folder : DraftFolder δ) (n : Nat) (call' : SaveCall δ) : DraftState δ :=
  { s with folder, saves := s.saves.set n call' }

theorem open_moved (hsaving : s.saving = some n) (hn : s.saves[n]? = some call) : (s.moved folder n call').Open c ↔ c = call' := by
  have hset := getElem?_set_of_some hn call'
  constructor
  · rintro ⟨n',hn',hc⟩
    cases hsaving.symm.trans hn'
    rw [hset,if_pos rfl] at hc
    exact (Option.some.inj hc).symm
  · rintro rfl
    exact ⟨n,hsaving,(hset n).trans (if_pos rfl)⟩

theorem known_moved (hn : s.saves[n]? = some call) (huid : (s.moved folder n call').Known uid) :
    s.Known uid ∨ call'.stage.stored = some uid := by
  rcases huid with hopened | ⟨m,content,-,hm⟩
  · exact .inl (.inl hopened)
  · obtain ⟨c,hc,hstored⟩ := call_of_storedAt hm
    rw [getElem?_set_of_some hn call'] at hc
    split at hc
    · exact .inr (Option.some.inj hc ▸ hstored)
    · exact .inl (DraftState.known_of_stored hc hstored)

theorem SmoothInv.own_moved (h : SmoothInv s) (hinv : DraftInv draft s) (hsaving : s.saving = some n) (hn : s.saves[n]? = some call)
    (hmoved : SaveMoved s call call' folder) : ∀ m ∈ folder.messages.rows, (s.moved folder n call').Known m.uid →
      s.draftUid = some m.uid ∨ (∃ d ∈ s.discards, d.uid = m.uid ∧ d.stage.pending = true) ∨
        ∃ c, (s.moved folder n call').Open c ∧ c.stage.stored = some m.uid := by
  intro m hm huid
  have hthird : call'.stage.stored = some m.uid → ∃ c, (s.moved folder n call').Open c ∧ c.stage.stored = some m.uid :=
    fun hstored => ⟨call',(open_moved hsaving hn).mpr rfl,hstored⟩
  have hold (hm : m ∈ s.folder.messages.rows) (hknown : s.Known m.uid)
      (hkeep : call.stage.stored = some m.uid → call'.stage.stored = some m.uid) :
      s.draftUid = some m.uid ∨ (∃ d ∈ s.discards, d.uid = m.uid ∧ d.stage.pending = true) ∨
        ∃ c, (s.moved folder n call').Open c ∧ c.stage.stored = some m.uid := by
    refine (h.own m hm hknown).imp_right (Or.imp_right ?_)
    rintro ⟨c,hc,hstored⟩
    exact hthird (hkeep (open_unique hsaving hn hc ▸ hstored))
  rcases known_moved hn huid with hbefore | hstored
  · cases hmoved with
    | stays hkeep _ => exact hold hm hbefore hkeep.trans
    | appended hnone _ _ _ =>
      rcases DraftFolder.mem_append.mp hm with hm | rfl
      · exact hold hm hbefore (by simp [hnone])
      · exact absurd (hinv.known_below hbefore) (Nat.lt_irrefl _)
    | deleted _ _ hkeep _ => exact hold (DraftFolder.mem_delete.mp hm).1 hbefore hkeep.trans
  · exact .inr (.inr (hthird hstored))

theorem SmoothInv.held_moved (h : SmoothInv s) (hsaving : s.saving = some n) (hn : s.saves[n]? = some call)
    (hmoved : SaveMoved s call call' folder) (hreplaced : call'.replaceUid = call.replaceUid) (huid : s.draftUid = some uid) :
    (∃ m ∈ folder.messages.rows, m.uid = uid) ∨
      ∃ c, (s.moved folder n call').Open c ∧ c.stage.past = true ∧ c.replaceUid = some uid := by
  cases hmoved with
  | stays _ hpast =>
    refine (h.held uid huid).imp_right ?_
    rintro ⟨c,hc,hcpast,hc'⟩
    obtain rfl := open_unique hsaving hn hc
    exact ⟨call',(open_moved hsaving hn).mpr rfl,hpast.trans hcpast,hreplaced.trans hc'⟩
  | appended _ hearly _ _ =>
    rcases h.held uid huid with ⟨m,hm,hmuid⟩ | ⟨c,hc,hcpast,-⟩
    · exact .inl ⟨m,DraftFolder.mem_append.mpr (.inl hm),hmuid⟩
    · rw [open_unique hsaving hn hc,hearly] at hcpast
      exact absurd hcpast Bool.false_ne_true
  | deleted uid' hold _ hpast =>
    refine .inr ⟨call',(open_moved hsaving hn).mpr rfl,hpast,hreplaced.trans ?_⟩
    rcases (h.order call ⟨n,hsaving,hn⟩).2 with hnone | hreplace
    · simp [hnone] at huid
    · exact hreplace.symm.trans huid

theorem SmoothInv.stored_moved (h : SmoothInv s) (hinv : DraftInv draft s) (hsaving : s.saving = some n) (hn : s.saves[n]? = some call)
    (hmoved : SaveMoved s call call' folder) (huid : call'.stage.stored = some uid) : ∃ m ∈ folder.messages.rows, m.uid = uid := by
  have hopen : s.Open call := ⟨n,hsaving,hn⟩
  cases hmoved with
  | stays hstored _ => exact h.stored call uid hopen (hstored.symm.trans huid)
  | appended _ _ hstored _ =>
    exact ⟨⟨s.folder.uidNext,call.content⟩,DraftFolder.mem_append.mpr (.inr rfl),Option.some.inj (hstored.symm.trans huid)⟩
  | deleted uid' hold hstored _ =>
    obtain ⟨m,hm,rfl⟩ := h.stored call uid hopen (hstored.symm.trans huid)
    refine ⟨m,DraftFolder.mem_delete.mpr ⟨hm,?_⟩,rfl⟩
    rintro rfl
    exact hinv.replaced_ne_stored hn hold (hstored.symm.trans huid)

theorem SmoothInv.save (h : SmoothInv s) (hinv : DraftInv draft s) (hn : s.saves[n]? = some call)
    (haccess : call.access s.folder .done = some (folder,call')) : SmoothInv { s with folder, saves := s.saves.set n call' } := by
  have hsaving : s.saving = some n := by
    by_contra hne
    obtain ⟨uid,hstage⟩ := h.finished n call hn hne
    simp [SaveCall.access,hstage] at haccess
  have hopen : s.Open call := ⟨n,hsaving,hn⟩
  obtain ⟨horder,hreplace⟩ := h.order call hopen
  obtain ⟨horder',hreplaced,hmoved⟩ := horder.access haccess
  refine ⟨fun n' c hc hne => ?_,fun n' hn' => (h.last n' hn').trans (List.length_set ..).symm,fun c hc => ?_,
    fun d hd => ⟨(h.apart d hd).1,fun c hc => ?_⟩,fun c hc hpast m hm => ?_,h.own_moved hinv hsaving hn hmoved,
    fun uid huid => h.held_moved hsaving hn hmoved hreplaced huid,fun c uid hc huid => ?_,by simp [hsaving]⟩
  · rw [getElem?_set_of_some hn call',if_neg fun hsame : n' = n => hne (hsame ▸ hsaving)] at hc
    exact h.finished n' c hc hne
  · obtain rfl := (open_moved hsaving hn).mp hc
    exact ⟨horder',hreplaced ▸ hreplace⟩
  · obtain rfl := (open_moved hsaving hn).mp hc
    cases hmoved with
    | stays hstored _ => exact hstored ▸ (h.apart d hd).2 call hopen
    | appended _ _ hstored _ =>
      rw [hstored]
      exact fun hnext => Nat.lt_irrefl _ (Option.some.inj hnext ▸ hinv.known_below (hinv.discarded d hd))
    | deleted _ _ hstored _ => exact hstored ▸ (h.apart d hd).2 call hopen
  · obtain rfl := (open_moved hsaving hn).mp hc
    rw [hreplaced]
    cases hmoved with
    | stays _ hsame => exact h.gone call hopen (hsame ▸ hpast) m hm
    | appended _ _ _ hnone => simp [hnone hpast]
    | deleted _ hold _ _ =>
      rw [hold]
      exact fun huid => (DraftFolder.mem_delete.mp hm).2 (Option.some.inj huid).symm
  · obtain rfl := (open_moved hsaving hn).mp hc
    exact h.stored_moved hinv hsaving hn hmoved huid

end Save

theorem DiscardCall.access_done {call call' : DiscardCall} (h : call.access s.folder .done = some (folder,call')) : call'.uid = call.uid ∧
    ((folder = s.folder ∧ call'.stage.pending = call.stage.pending) ∨ folder = s.folder.delete call.uid) := by
  obtain ⟨uid,stage⟩ := call
  cases stage with
  | findDrafts | bust =>
    cases h
    exact ⟨rfl,.inl ⟨rfl,rfl⟩⟩
  | delete =>
    cases h
    exact ⟨rfl,.inr rfl⟩
  | ended => simp [access] at h

theorem SmoothInv.discard {call call' : DiscardCall} (h : SmoothInv s) (hn : s.discards[n]? = some call)
    (haccess : call.access s.folder .done = some (folder,call')) : SmoothInv { s with folder, discards := s.discards.set n call' } := by
  obtain ⟨huid,hcases⟩ := call.access_done haccess
  have hcall := List.mem_of_getElem? hn
  have hrows : ∀ m ∈ folder.messages.rows, m ∈ s.folder.messages.rows := by
    rcases hcases with ⟨rfl,-⟩ | rfl
    · exact fun m hm => hm
    · exact fun m hm => (DraftFolder.mem_delete.mp hm).1
  have hkept : ∀ m ∈ s.folder.messages.rows, m.uid ≠ call.uid → m ∈ folder.messages.rows := by
    rcases hcases with ⟨rfl,-⟩ | rfl
    · exact fun m hm _ => hm
    · exact fun m hm hne => DraftFolder.mem_delete.mpr ⟨hm,hne⟩
  refine ⟨h.finished,h.last,h.order,fun d hd => ?_,fun c hc hpast m hm => h.gone c hc hpast m (hrows m hm),fun m hm hknown => ?_,
    fun uid hdraft => ?_,fun c uid hc hstored => ?_,h.recent⟩
  · rcases List.mem_or_eq_of_mem_set hd with hd | rfl
    · exact h.apart d hd
    · rw [huid]
      exact h.apart call hcall
  · rcases h.own m (hrows m hm) hknown with hdraft | ⟨d,hd,hsame,hpending⟩ | hstored
    · exact .inl hdraft
    · refine .inr (.inl ?_)
      obtain ⟨i,hi⟩ := List.mem_iff_getElem?.mp hd
      by_cases hin : i = n
      · subst hin
        obtain rfl := Option.some.inj (hi.symm.trans hn)
        refine ⟨call',List.mem_iff_getElem?.mpr ⟨i,(getElem?_set_of_some hn call' i).trans (if_pos rfl)⟩,huid.trans hsame,?_⟩
        rcases hcases with ⟨-,hstill⟩ | rfl
        · exact hstill.trans hpending
        · exact absurd hsame.symm (DraftFolder.mem_delete.mp hm).2
      · exact ⟨d,List.mem_iff_getElem?.mpr ⟨i,(getElem?_set_of_some hn call' i).trans ((if_neg hin).trans hi)⟩,hsame,hpending⟩
    · exact .inr (.inr hstored)
  · refine (h.held uid hdraft).imp_left fun ⟨m,hm,hmuid⟩ => ⟨m,hkept m hm fun hsame => ?_,hmuid⟩
    exact (h.apart call hcall).1 (hdraft.trans (congrArg some (hmuid.symm.trans hsame)))
  · obtain ⟨m,hm,hmuid⟩ := h.stored c uid hc hstored
    refine ⟨m,hkept m hm fun hsame => ?_,hmuid⟩
    exact (h.apart call hcall).2 c hc (hstored.trans (congrArg some (hmuid.symm.trans hsame)))

theorem SmoothInv.otherAppend (h : SmoothInv s) (hinv : DraftInv draft s) (content : δ) :
    SmoothInv { s with folder := s.folder.append content } := by
  have hnew : ¬s.Known s.folder.uidNext := fun hknown => Nat.lt_irrefl _ (hinv.known_below hknown)
  have hkept : ∀ m ∈ s.folder.messages.rows, m ∈ (s.folder.append content).messages.rows :=
    fun m hm => DraftFolder.mem_append.mpr (.inl hm)
  refine ⟨h.finished,h.last,h.order,h.apart,fun c hc hpast m hm => ?_,fun m hm hknown => ?_,
    fun uid hdraft => (h.held uid hdraft).imp_left fun ⟨m,hm,hmuid⟩ => ⟨m,hkept m hm,hmuid⟩,fun c uid hc hstored => ?_,h.recent⟩
  · rcases DraftFolder.mem_append.mp hm with hm | rfl
    · exact h.gone c hc hpast m hm
    · obtain ⟨n,-,hn⟩ := hc
      have hrecord := DraftState.record_at hn
      refine fun hreplace => hnew ((hinv.numbered.replaced n c.record _ hrecord hreplace).mono ?_)
      exact Nat.le_of_lt (List.getElem?_eq_some_iff.mp hrecord).1
  · rcases DraftFolder.mem_append.mp hm with hm | rfl
    · exact h.own m hm hknown
    · exact absurd hknown hnew
  · obtain ⟨m,hm,hmuid⟩ := h.stored c uid hc hstored
    exact ⟨m,hkept m hm,hmuid⟩

theorem SmoothInv.otherDelete (h : SmoothInv s) (hinv : DraftInv draft s) (halone : uid ∉ s.own) :
    SmoothInv { s with folder := s.folder.delete uid } := by
  have hkept : ∀ m ∈ s.folder.messages.rows, s.Known m.uid → m ∈ (s.folder.delete uid).messages.rows := fun m hm hknown =>
    DraftFolder.mem_delete.mpr ⟨hm,fun hsame => halone (mem_own.mpr (hsame ▸ hknown))⟩
  refine ⟨h.finished,h.last,h.order,h.apart,fun c hc hpast m hm => h.gone c hc hpast m (DraftFolder.mem_delete.mp hm).1,
    fun m hm hknown => h.own m (DraftFolder.mem_delete.mp hm).1 hknown,fun uid' hdraft => ?_,fun c uid' hc hstored => ?_,h.recent⟩
  · exact (h.held uid' hdraft).imp_left fun ⟨m,hm,hmuid⟩ => ⟨m,hkept m hm (hmuid ▸ hinv.draftUid uid' hdraft),hmuid⟩
  · obtain ⟨m,hm,rfl⟩ := h.stored c uid' hc hstored
    obtain ⟨n,-,hn⟩ := hc
    exact ⟨m,hkept m hm (DraftState.known_of_stored hn hstored),rfl⟩

theorem smoothInv_step (h : SmoothInv s) (hinv : DraftInv draft s) (hsmooth : Smooth s a) (hstep : draftStep hasContent s a = some t) :
    SmoothInv t := by
  cases a with
  | edit content | remount content | send | close =>
    obtain ⟨-,ht⟩ := Option.ite_none_left_eq_some.mp hstep
    cases ht
    exact h.composer rfl rfl rfl rfl rfl rfl
  | autosave =>
    obtain ⟨-,ht⟩ := Option.ite_none_right_eq_some.mp hstep
    cases ht
    exact h.autosave
  | save n outcome =>
    obtain rfl : outcome = .done := hsmooth
    obtain ⟨call,hn,hmap⟩ := Option.bind_eq_some_iff.mp hstep
    obtain ⟨⟨folder,call'⟩,haccess,rfl⟩ := Option.map_eq_some_iff.mp hmap
    exact h.save hinv hn haccess
  | discard n outcome =>
    obtain rfl : outcome = .done := hsmooth
    obtain ⟨call,hn,hmap⟩ := Option.bind_eq_some_iff.mp hstep
    obtain ⟨⟨folder,call'⟩,haccess,rfl⟩ := Option.map_eq_some_iff.mp hmap
    exact h.discard hn haccess
  | response =>
    obtain ⟨call,hcall,hhear⟩ := Option.bind_eq_some_iff.mp hstep
    obtain ⟨n,hsaving,hn⟩ := Option.bind_eq_some_iff.mp hcall
    exact h.response hsaving hn hhear
  | lost => exact hsmooth.elim
  | accept n =>
    obtain ⟨-,ht⟩ := Option.ite_none_right_eq_some.mp hstep
    cases ht
    exact h.composer rfl rfl rfl rfl rfl rfl
  | sent n =>
    obtain ⟨hn,ht⟩ := Option.ite_none_right_eq_some.mp hstep
    cases ht
    have hheard : PostStage.heard ∈ s.posts.set n .heard := List.mem_set (List.getElem?_eq_some_iff.mp hn).1 _
    have hposts : SmoothInv { s with posts := s.posts.set n .heard } := h.composer rfl rfl rfl rfl rfl rfl
    exact hposts.discardDraft (hinv.composer rfl rfl rfl rfl hinv.draftUid fun _ => .inr hheard)
  | pressDiscard =>
    obtain ⟨-,ht⟩ := Option.ite_none_left_eq_some.mp hstep
    cases ht
    have hpressed : SmoothInv { s with timer := false, closed := true, discarded := true } := h.composer rfl rfl rfl rfl rfl rfl
    exact hpressed.discardDraft (hinv.composer rfl rfl rfl rfl hinv.draftUid fun _ => .inl rfl)
  | otherAppend content =>
    cases hstep
    exact h.otherAppend hinv content
  | otherDelete uid =>
    cases hstep
    exact h.otherDelete hinv hsmooth

theorem smoothInv_opening (folder : DraftFolder δ) (content : δ) (draft : Option { m : DraftMessage δ // m ∈ folder.messages.rows }) :
    SmoothInv (.opening hasContent folder content draft) := by
  have hclosed : ∀ call, ¬DraftState.Open (.opening hasContent folder content draft) call := by
    rintro call ⟨n,hn,-⟩
    simp [DraftState.opening] at hn
  refine ⟨by simp [DraftState.opening],by simp [DraftState.opening],fun c hc => absurd hc (hclosed c),by simp [DraftState.opening],
    fun c hc => absurd hc (hclosed c),fun m _ hknown => .inl ?_,fun uid huid => .inl ?_,fun c _ hc => absurd hc (hclosed c),
    by simp [DraftState.opening]⟩
  · rcases hknown with hopened | ⟨_,_,hlt,-⟩
    · exact hopened
    · exact absurd hlt (Nat.not_lt_zero _)
  · obtain ⟨m,-,rfl⟩ := Option.map_eq_some_iff.mp huid
    exact ⟨m.1,m.2,rfl⟩

theorem Smooth.leftAlone (h : Smooth s a) : LeftAlone s a := by
  cases a with
  | otherDelete uid => exact h
  | _ => trivial

/-- Where nothing fails, autosave leaves one draft of the composer in the folder, the last one, and a discard leaves none. -/
theorem single_draft (folder : DraftFolder δ) (content : δ) (draft : Option { m : DraftMessage δ // m ∈ folder.messages.rows })
    (hrun : Run (draftStep hasContent) Smooth (.opening hasContent folder content draft) s) (hrest : DraftsAtRest s) : SingleDraft s := by
  have hboth : ∀ u a v, DraftInv (draft.map (·.1)) u ∧ SmoothInv u → Smooth u a → draftStep hasContent u a = some v →
      DraftInv (draft.map (·.1)) v ∧ SmoothInv v :=
    fun _ _ _ h hsmooth hstep => ⟨draftInv_step h.1 hsmooth.leftAlone hstep,smoothInv_step h.2 h.1 hsmooth hstep⟩
  obtain ⟨hinv,hsmooth⟩ := hrun.invariant hboth ⟨draftInv_opening folder content draft,smoothInv_opening folder content draft⟩
  have hclosed : ∀ call, ¬s.Open call := by
    rintro call ⟨n,hn,-⟩
    simp [hrest.saving] at hn
  have hdraft : ∀ m ∈ s.ownDrafts, s.draftUid = some m.uid := by
    intro m hm
    obtain ⟨hrow,hown⟩ := List.mem_filter.mp hm
    rcases hsmooth.own m hrow (mem_own.mp (of_decide_eq_true hown)) with hdraft | ⟨d,hd,-,hpending⟩ | ⟨call,hcall,-⟩
    · exact hdraft
    · simp [hrest.discards d hd,DiscardStage.pending] at hpending
    · exact absurd hcall (hclosed call)
  refine ⟨?_,fun call hlast m hm => ?_⟩
  · have hnodup : (s.ownDrafts.map (·.uid)).Nodup := s.folder.messages.unique.sublist (List.filter_sublist.map _)
    cases huid : s.draftUid with
    | none =>
      refine List.map_eq_nil_iff.mpr (List.eq_nil_iff_forall_not_mem.mpr fun m hm => ?_)
      simp [huid] at hdraft
      exact hdraft m hm
    | some uid =>
      have hall : ∀ x ∈ s.ownDrafts.map (·.uid), x = uid := by
        intro x hx
        obtain ⟨m,hm,rfl⟩ := List.mem_map.mp hx
        exact (Option.some.inj (huid.symm.trans (hdraft m hm))).symm
      have hmem : uid ∈ s.ownDrafts.map (·.uid) := by
        rcases hsmooth.held uid huid with ⟨m,hm,rfl⟩ | ⟨call,hcall,-⟩
        · exact List.mem_map_of_mem (List.mem_filter.mpr ⟨hm,decide_eq_true (mem_own.mpr (hinv.draftUid _ huid))⟩)
        · exact absurd hcall (hclosed call)
      generalize s.ownDrafts.map (·.uid) = uids at hnodup hall hmem
      cases uids with
      | nil => exact absurd hmem List.not_mem_nil
      | cons x rest =>
        obtain rfl := hall x List.mem_cons_self
        have hrest : rest = [] := List.eq_nil_iff_forall_not_mem.mpr fun y hy =>
          (List.nodup_cons.mp hnodup).1 (hall y (List.mem_cons_of_mem _ hy) ▸ hy)
        rw [hrest]
        rfl
  · obtain ⟨n,hn⟩ := List.mem_iff_getElem?.mp (List.mem_of_getLast? hlast)
    have hstored := hsmooth.recent hrest.saving m.uid call (hdraft m hm) hlast
    refine hinv.numbered.content n call.content m (List.mem_filter.mp hm).1 ⟨call.replaceUid,?_⟩
    rw [DraftState.record_at hn,SaveCall.record,hstored]

instance (s : DraftState δ) : DecidablePred (Smooth s) := fun a =>
  match a with
  | .save _ outcome | .discard _ outcome => inferInstanceAs (Decidable (outcome = .done))
  | .lost => .isFalse id
  | .otherDelete uid => inferInstanceAs (Decidable (uid ∉ s.own))
  | .edit _ | .remount _ | .autosave | .response | .send | .accept _ | .sent _ | .pressDiscard | .close | .otherAppend _ => .isTrue trivial

/-- The message is sent while a save is under way, which leaves its draft in the folder. -/
def sentWhileSaving : List (DraftAction Nat) :=
  [.edit 31,.autosave,.save 0 .done,.save 0 .done,.save 0 .done,.save 0 .done,.response,.edit 32,.autosave,.send,.accept 0,.sent 0,
    .discard 0 .done,.save 1 .done,.discard 0 .done,.save 1 .done,.discard 0 .done,.close,.save 1 .done,.save 1 .done,.response]

theorem sent_while_saving : ∃ s, s.folder.messages.rows = [⟨5,32⟩] ∧ s.closed = true ∧ SingleDraft s := by
  let draft : Option { m : DraftMessage Nat // m ∈ oneDraft.messages.rows } := some ⟨⟨3,30⟩,List.mem_singleton_self _⟩
  have htrace : (runActions (draftStep isFilled) Smooth (.opening isFilled oneDraft 30 draft) sentWhileSaving).map
      (fun s => (s.folder.messages.rows,s.closed,s.saving,s.discards)) = some ([⟨5,32⟩],true,none,[⟨4,.ended⟩]) := by decide +kernel
  obtain ⟨s,hs,hview⟩ := Option.map_eq_some_iff.mp htrace
  obtain ⟨hrows,hclosed,hsaving,hdiscards⟩ : s.folder.messages.rows = [⟨5,32⟩] ∧ s.closed = true ∧
    s.saving = none ∧ s.discards = [⟨4,.ended⟩] := by
    simpa using hview
  refine ⟨s,hrows,hclosed,single_draft oneDraft 30 draft (.of_actions hs) ⟨hsaving,fun call hcall => ?_⟩⟩
  rw [hdiscards] at hcall
  rw [List.mem_singleton.mp hcall]

end Smooth
end JustMail.Webmail
