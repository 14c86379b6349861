import JustMail.Dkim.Keys

/-! `selectors.map` and the key files against the key table, while operations run. -/
namespace JustMail.Dkim
open Foundation

/-- The map lists each active key once and nothing else, and the file of every key it
lists is there. -/
structure Consistent (s : KeyState) : Prop where
  once : s.selectorsMap.Nodup
  lines (name : KeyName) : name ∈ s.selectorsMap ↔ ∃ k ∈ s.table.keys.rows, k.status = .active ∧ k.name = name
  files (name : KeyName) : name ∈ s.selectorsMap → s.files name ≠ none

/-- After startup: nothing runs, and the key directory was written from the table. -/
structure Started (s : KeyTasks) : Prop where
  idle : s.Idle
  snapshots : s.shared.written = s.shared.reads
  consistent : Consistent s.shared

/-- The instruction will write the file of the key, if the key is not retired. -/
def KeyInstr.coversFile (name : KeyName) : KeyInstr → Bool
  | .writeKeyFile _ name' _ => name' = name
  | .selectSync => true
  | _ => false

/-- An operation in flight has still to write the file. -/
def FileDue (s : KeyTasks) (name : KeyName) : Prop := ∃ task ∈ s.running, ∃ x ∈ task, x.coversFile name = true

/-- No file is deleted that an active key needs, unless it is about to be written; no
snapshot is written after one that was read later. -/
def InOrder (s : KeyTasks) : KeyInstr → Prop
  | .writeMap _ snapshot _ => s.shared.written ≤ snapshot
  | .deleteKeyFile name => ∀ k ∈ s.shared.table.keys.rows, k.status = .active → k.name = name → FileDue s name
  | _ => True

/-- The instruction goes through. -/
def Succeeds (cfg : RotationConfig) (s : KeyTasks) : KeyAction → Prop
  | .call _ => True
  | .exec i env => env.fails = false ∧
    ∀ instr ∈ s.instr (.exec i env : KeyAction), (instr.run cfg s.shared env).isSome = true

def Orderly (cfg : RotationConfig) (s : KeyTasks) (a : KeyAction) : Prop :=
  Succeeds cfg s a ∧ ∀ instr ∈ s.instr a, InOrder s instr

instance (s : KeyTasks) (name : KeyName) : Decidable (FileDue s name) :=
  inferInstanceAs (Decidable (∃ task ∈ s.running, ∃ x ∈ task, x.coversFile name = true))

instance (s : KeyTasks) (instr : KeyInstr) : Decidable (InOrder s instr) :=
  match instr with
  | .writeMap _ snapshot _ => inferInstanceAs (Decidable (s.shared.written ≤ snapshot))
  | .deleteKeyFile name => inferInstanceAs (Decidable
    (∀ k ∈ s.shared.table.keys.rows, k.status = .active → k.name = name → FileDue s name))
  | .insertKey _ _ | .writeKeyFile _ _ _ | .selectSync | .selectMap _ | .activateTx _ _ | .retireSelect _ _ |
    .retireUpdate _ | .selectDue | .freshSelector _ | .startInsert _ _ | .publishTxt _ _ | .startWrite _ _ |
    .selectReady | .txtResolves _ _ | .promoteTx _ _ => .isTrue trivial

instance (cfg : RotationConfig) (s : KeyTasks) (a : KeyAction) : Decidable (Succeeds cfg s a) :=
  match a with
  | .call _ => .isTrue trivial
  | .exec i env => inferInstanceAs (Decidable (env.fails = false ∧
    ∀ instr ∈ s.instr (.exec i env : KeyAction), (instr.run cfg s.shared env).isSome = true))

instance (cfg : RotationConfig) (s : KeyTasks) (a : KeyAction) : Decidable (Orderly cfg s a) :=
  inferInstanceAs (Decidable (_ ∧ _))

section Table
variable {t t' : KeyTable} {k : DkimRow}

theorem mem_activeNames {name : KeyName} :
    name ∈ t.activeNames ↔ ∃ k ∈ t.keys.rows, k.status = .active ∧ k.name = name := by
  simp [KeyTable.activeNames,and_assoc]

theorem activeNames_nodup : t.activeNames.Nodup := t.names.sublist (List.filter_sublist.map _)

theorem activeNames_insertKey {new : DkimRow} (h : t.insertKey new = some t')
    (hnew : new.status = .pending ∨ new.status = .published) : t'.activeNames = t.activeNames := by
  rw [KeyTable.insertKey] at h
  split at h
  · cases h
    change ((t.keys.rows ++ [new]).filter (·.status = .active)).map DkimRow.name = _
    have hinactive : new.status ≠ .active := by
      rcases hnew with hnew | hnew <;> simp [hnew]
    simp [List.filter_append,hinactive,KeyTable.activeNames]
  · simp at h

/-- A key active after it was not made so had been active before. -/
theorem active_of_retireKey {id : Nat} (hk : k ∈ (t.retireKey id).keys.rows) (hactive : k.status = .active) :
    k ∈ t.keys.rows := by
  rcases mem_setStatus.mp hk with ⟨hk,-⟩ | ⟨k',-,-,rfl⟩
  · exact hk
  · simp at hactive

end Table

section Invariant
variable {cfg : RotationConfig} {s t : KeyTasks} {a : KeyAction}

/-- A change of the active keys is followed by a new reading of the table. -/
def Followed : List KeyInstr → Prop
  | [] => True
  | x :: rest => (match x with
    | .activateTx _ _ => .selectSync ∈ rest
    | .retireUpdate _ => .selectMap false ∈ rest
    | _ => True) ∧ Followed rest

theorem Followed.append {more rest : List KeyInstr} (hmore : Followed more) (hrest : Followed rest) :
    Followed (more ++ rest) := by
  induction more with
  | nil => exact hrest
  | cons x more ih =>
    refine ⟨?_,ih hmore.2⟩
    have hx := hmore.1
    cases x with
    | activateTx domain id => exact List.mem_append_left _ hx
    | retireUpdate id => exact List.mem_append_left _ hx
    | _ => trivial

/-- The table will be read again for the map. -/
def KeyInstr.rereads : KeyInstr → Bool
  | .selectMap _ | .selectSync => true
  | _ => false

def MapDue (s : KeyTasks) : Prop := ∃ x, s.Pending x ∧ x.rereads = true

/-- The newest snapshot lists the active keys, and it is written or about to be. -/
structure Current (s : KeyTasks) : Prop where
  newest (caught : Bool) (lines : List KeyName) : s.Pending (.writeMap caught s.shared.reads lines) →
    lines = s.shared.table.activeNames
  due : (∃ caught, s.Pending (.writeMap caught s.shared.reads s.shared.table.activeNames)) ∨
    (s.shared.written = s.shared.reads ∧ s.shared.selectorsMap.Nodup ∧
      ∀ name, name ∈ s.shared.selectorsMap ↔ name ∈ s.shared.table.activeNames)

structure Tracked (s : KeyTasks) : Prop where
  followed : ∀ task ∈ s.running, Followed task
  numbered (caught : Bool) (n : Nat) (lines : List KeyName) : s.Pending (.writeMap caught n lines) → n ≤ s.shared.reads
  written : s.shared.written ≤ s.shared.reads
  map : MapDue s ∨ Current s
  files : ∀ k ∈ s.shared.table.keys.rows, k.status = .active → s.shared.files k.name ≠ none ∨ FileDue s k.name

theorem fileDue_iff {name : KeyName} : FileDue s name ↔ ∃ x, s.Pending x ∧ x.coversFile name = true := by
  constructor
  · rintro ⟨task,htask,x,hx,hcovers⟩
    exact ⟨x,⟨task,htask,hx⟩,hcovers⟩
  · rintro ⟨x,⟨task,htask,hx⟩,hcovers⟩
    exact ⟨task,htask,x,hx,hcovers⟩

/-- The bodies of the operations hold no snapshot, and are followed. -/
theorem keyOpBody_followed (cfg : RotationConfig) (op : KeyOp) :
    Followed (keyOpBody cfg op) ∧ ∀ caught n lines, .writeMap caught n lines ∉ keyOpBody cfg op := by
  cases op with
  | rotateDue =>
    rw [keyOpBody]
    split <;> simp [Followed]
  | _ => simp [keyOpBody,Followed]

theorem tracked_call (h : Tracked s) (op : KeyOp) : Tracked ⟨s.shared,s.running ++ [keyOpBody cfg op]⟩ := by
  obtain ⟨hfollowed,hbody⟩ := keyOpBody_followed cfg op
  have hwrite : ∀ {caught n lines}, Tasks.Pending ⟨s.shared,s.running ++ [keyOpBody cfg op]⟩ (.writeMap caught n lines) →
      s.Pending (.writeMap caught n lines) := by
    intro caught n lines hx
    exact (Tasks.pending_call hx).resolve_right (hbody caught n lines)
  refine ⟨?_,?_,h.written,?_,?_⟩
  · intro task htask
    rcases List.mem_append.mp htask with htask | htask
    · exact h.followed task htask
    · exact List.mem_singleton.mp htask ▸ hfollowed
  · intro caught n lines hx
    exact h.numbered caught n lines (hwrite hx)
  · rcases h.map with ⟨x,hx,hrereads⟩ | hcurrent
    · exact .inl ⟨x,hx.call,hrereads⟩
    · refine .inr ⟨fun caught lines hx => hcurrent.newest caught lines (hwrite hx),?_⟩
      exact hcurrent.due.imp_left fun ⟨caught,hx⟩ => ⟨caught,hx.call⟩
  · intro k hk hactive
    refine (h.files k hk hactive).imp_right fun hdue => ?_
    obtain ⟨x,hx,hcovers⟩ := fileDue_iff.mp hdue
    exact fileDue_iff.mpr ⟨x,hx.call,hcovers⟩

section Exec
variable {sh : KeyState} {instr : KeyInstr} {more rest : List KeyInstr} {i now : Nat}

private def after (s : KeyTasks) (i : Nat) (sh : KeyState) (more rest : List KeyInstr) : KeyTasks :=
  ⟨sh,s.running.set i (Outcome.continuation rest (.next more))⟩

private theorem after_shared : (after s i sh more rest).shared = sh := rfl

theorem followed_exec (h : Tracked s) (hi : s.running[i]? = some (instr :: rest))
    (heffect : KeyEffect s.shared now instr sh more) : ∀ task ∈ (after s i sh more rest).running, Followed task := by
  have htask := h.followed _ (List.mem_of_getElem? hi)
  have hmore : Followed more := by
    cases heffect with
    | selectSync =>
      refine Followed.append ?_ (by simp [Followed])
      induction s.shared.table.keys.rows.filter (·.status ≠ .retired) with
      | nil => trivial
      | cons k ks ih => exact ⟨trivial,ih⟩
    | selectDue domains =>
      induction domains with
      | nil => trivial
      | cons d ds ih => exact ⟨trivial,ih⟩
    | selectReady ready hready =>
      clear hready
      induction ready with
      | nil => trivial
      | cons k ks ih => exact ⟨trivial,ih⟩
    | _ => simp [Followed]
  exact Tasks.forall_set h.followed (hmore.append htask.2)

/-- Only reading the table for the map adds a snapshot. -/
theorem writeMap_more {caught : Bool} {n : Nat} {lines : List KeyName} (heffect : KeyEffect s.shared now instr sh more)
    (hx : .writeMap caught n lines ∈ more) :
    (∃ caught, instr = .selectMap caught) ∧ n = s.shared.reads+1 ∧ lines = s.shared.table.activeNames := by
  cases heffect <;> simp_all

theorem numbered_exec (h : Tracked s) (hi : s.running[i]? = some (instr :: rest))
    (heffect : KeyEffect s.shared now instr sh more) :
    (∀ caught n lines, (after s i sh more rest).Pending (.writeMap caught n lines) → n ≤ sh.reads) ∧ sh.written ≤ sh.reads := by
  have hwritten := h.written
  have hreads : s.shared.reads ≤ sh.reads := by
    cases heffect <;> simp [makeActive]
  refine ⟨?_,?_⟩
  · intro caught n lines hx
    rcases Tasks.pending_exec hi hx with hx | ⟨_,hmore,hx⟩
    · exact (h.numbered caught n lines hx).trans hreads
    · rw [← Outcome.next.inj hmore] at hx
      obtain ⟨⟨_,rfl⟩,rfl,-⟩ := writeMap_more heffect hx
      cases heffect
      exact Nat.le_refl _
  · cases heffect with
    | writeMap => exact max_le hwritten (h.numbered _ _ _ (Tasks.pending_head hi))
    | selectMap => exact Nat.le_succ_of_le hwritten
    | _ => exact hwritten

theorem map_keep (h : Tracked s) (hi : s.running[i]? = some (instr :: rest)) (hreads : sh.reads = s.shared.reads)
    (hwritten : sh.written = s.shared.written) (hmap : sh.selectorsMap = s.shared.selectorsMap)
    (hnames : sh.table.activeNames = s.shared.table.activeNames) (hrereads : instr.rereads = false)
    (hinstr : ∀ caught n lines, instr ≠ .writeMap caught n lines) (hmore : ∀ caught n lines, .writeMap caught n lines ∉ more) :
    MapDue (after s i sh more rest) ∨ Current (after s i sh more rest) := by
  rcases h.map with ⟨x,hx,hxr⟩ | hcurrent
  · refine .inl ⟨x,hx.stays hi ?_,hxr⟩
    rintro rfl
    exact Bool.false_ne_true (hrereads.symm.trans hxr)
  · refine .inr ⟨?_,?_⟩
    · intro caught lines hx
      change lines = sh.table.activeNames
      rcases Tasks.pending_exec hi hx with hx | ⟨_,heq,hx⟩
      · rw [hnames]
        exact hcurrent.newest caught lines (hreads ▸ hx)
      · cases heq
        exact absurd hx (hmore _ _ _)
    · rw [after_shared,hreads,hwritten,hmap,hnames]
      exact hcurrent.due.imp_left fun ⟨caught,hx⟩ => ⟨caught,hx.stays hi (hinstr _ _ _).symm⟩

theorem map_exec (h : Tracked s) (hi : s.running[i]? = some (instr :: rest))
    (heffect : KeyEffect s.shared now instr sh more) (horder : InOrder s instr) :
    MapDue (after s i sh more rest) ∨ Current (after s i sh more rest) := by
  have hfollowed := (h.followed _ (List.mem_of_getElem? hi)).1
  cases heffect with
  | activateTx => exact .inl ⟨.selectSync,Tasks.pending_rest hi hfollowed,rfl⟩
  | retireUpdate => exact .inl ⟨.selectMap false,Tasks.pending_rest hi hfollowed,rfl⟩
  | promoteTx => exact .inl ⟨.selectSync,Tasks.pending_more hi List.mem_cons_self,rfl⟩
  | selectSync => exact .inl ⟨.selectMap false,Tasks.pending_more hi (by simp),rfl⟩
  | @selectMap caught =>
    refine .inr ⟨?_,.inl ⟨caught,Tasks.pending_more hi List.mem_cons_self⟩⟩
    intro caught' lines hx
    rcases Tasks.pending_exec hi hx with hx | ⟨_,heq,hx⟩
    · exact absurd (h.numbered _ _ _ hx) (Nat.not_succ_le_self _)
    · rw [← Outcome.next.inj heq,List.mem_singleton] at hx
      exact (KeyInstr.writeMap.inj hx).2.2
  | @writeMap caught snapshot lines =>
    have hold : ∀ {x}, (after s i { s.shared with selectorsMap := lines, written := max s.shared.written snapshot } [] rest).Pending x →
        s.Pending x := by
      intro x hx
      rcases Tasks.pending_exec hi hx with hx | ⟨_,heq,hx⟩
      · exact hx
      · rw [← Outcome.next.inj heq] at hx
        exact absurd hx List.not_mem_nil
    rcases h.map with ⟨x,hx,hxr⟩ | hcurrent
    · refine .inl ⟨x,hx.stays hi ?_,hxr⟩
      rintro rfl
      simp [KeyInstr.rereads] at hxr
    · refine .inr ⟨fun caught' lines' hx => hcurrent.newest caught' lines' (hold hx),?_⟩
      by_cases hsnapshot : snapshot = s.shared.reads
      · -- the newest snapshot itself is written
        subst hsnapshot
        have hlines := hcurrent.newest caught lines (Tasks.pending_head hi)
        refine .inr ⟨max_eq_right h.written,?_,?_⟩
        · exact hlines ▸ activeNames_nodup
        · exact fun name => hlines ▸ Iff.rfl
      · -- an older one: by the order the newest is not written yet
        have hle := h.numbered _ _ _ (Tasks.pending_head hi)
        have horder : s.shared.written ≤ snapshot := horder
        rcases hcurrent.due with ⟨caught',hx⟩ | ⟨hwritten,-⟩
        · refine .inl ⟨caught',hx.stays hi ?_⟩
          intro heq
          exact hsnapshot (KeyInstr.writeMap.inj heq).2.1.symm
        · omega
  | insertKey hinsert hnew =>
    exact map_keep h hi rfl rfl rfl (activeNames_insertKey hinsert (.inl hnew)) rfl (by simp) (by simp)
  | startInsert hinsert hnew =>
    exact map_keep h hi rfl rfl rfl (activeNames_insertKey hinsert (.inr hnew)) rfl (by simp) (by simp)
  | _ => exact map_keep h hi rfl rfl rfl rfl rfl (by simp) (by simp)

theorem FileDue.stays {name : KeyName} (h : FileDue s name) (hi : s.running[i]? = some (instr :: rest))
    (hinstr : instr.coversFile name = false) : FileDue (after s i sh more rest) name := by
  obtain ⟨x,hx,hcovers⟩ := fileDue_iff.mp h
  refine fileDue_iff.mpr ⟨x,hx.stays hi ?_,hcovers⟩
  rintro rfl
  exact Bool.false_ne_true (hinstr.symm.trans hcovers)

theorem files_exec (h : Tracked s) (hi : s.running[i]? = some (instr :: rest))
    (heffect : KeyEffect s.shared now instr sh more) (horder : InOrder s instr) :
    ∀ k ∈ sh.table.keys.rows, k.status = .active → sh.files k.name ≠ none ∨ FileDue (after s i sh more rest) k.name := by
  have hfollowed := (h.followed _ (List.mem_of_getElem? hi)).1
  intro k hk hactive
  have hkeep : k ∈ s.shared.table.keys.rows → instr.coversFile k.name = false → sh.files k.name = s.shared.files k.name →
      sh.files k.name ≠ none ∨ FileDue (after s i sh more rest) k.name := by
    intro hk hinstr hfile
    rw [hfile]
    exact (h.files k hk hactive).imp_right fun hdue => hdue.stays hi hinstr
  cases heffect with
  | insertKey hinsert hnew =>
    rcases (mem_insertKey hinsert).mp hk with hk | rfl
    · exact hkeep hk rfl rfl
    · simp [hactive] at hnew
  | startInsert hinsert hnew =>
    rcases (mem_insertKey hinsert).mp hk with hk | rfl
    · exact hkeep hk rfl rfl
    · simp [hactive] at hnew
  | activateTx => exact .inr (fileDue_iff.mpr ⟨.selectSync,Tasks.pending_rest hi hfollowed,rfl⟩)
  | promoteTx => exact .inr (fileDue_iff.mpr ⟨.selectSync,Tasks.pending_more hi List.mem_cons_self,rfl⟩)
  | retireUpdate => exact hkeep (active_of_retireKey hk hactive) rfl rfl
  | selectSync =>
    refine .inr (fileDue_iff.mpr ⟨.writeKeyFile true k.name k.privateKey,Tasks.pending_more hi ?_,by simp [KeyInstr.coversFile]⟩)
    exact List.mem_append_left _ (List.mem_map.mpr ⟨k,List.mem_filter.mpr ⟨hk,by simp [hactive]⟩,rfl⟩)
  | @writeKeyFile caught name privateKey =>
    by_cases hname : k.name = name
    · exact .inl (by simp [setFile,hname])
    · exact hkeep hk (decide_eq_false (Ne.symm hname)) (if_neg hname)
  | @startWrite name privateKey =>
    by_cases hname : k.name = name
    · exact .inl (by simp [setFile,hname])
    · exact hkeep hk rfl (if_neg hname)
  | @deleteKeyFile name =>
    by_cases hname : k.name = name
    · subst hname
      exact .inr ((horder k hk hactive rfl).stays hi rfl)
    · exact hkeep hk rfl (if_neg hname)
  | _ => exact hkeep hk rfl rfl

end Exec

theorem tracked_step (h : Tracked s) (horderly : Orderly cfg s a) (hstep : keyStep cfg s a = some t) : Tracked t := by
  rcases keyStep_cases hstep with ⟨op,rfl,rfl⟩ | ⟨i,env,instr,rest,rfl,hi,⟨hfails,-⟩ | ⟨shared,more,-,heffect,rfl⟩⟩
  · exact tracked_call h op
  · have hsucceeds := horderly.1.2 instr (Tasks.instr_exec hi)
    rcases hfails with hfails | hnone
    · exact absurd (horderly.1.1.symm.trans hfails) Bool.false_ne_true
    · simp [hnone] at hsucceeds
  · have horder := horderly.2 instr (Tasks.instr_exec hi)
    obtain ⟨hnumbered,hwritten⟩ := numbered_exec h hi heffect
    exact ⟨followed_exec h hi heffect,hnumbered,hwritten,map_exec h hi heffect horder,files_exec h hi heffect horder⟩

theorem Started.tracked (h : Started s) : Tracked s := by
  refine ⟨?_,?_,h.snapshots.le,.inr ⟨?_,.inr ⟨h.snapshots,h.consistent.once,?_⟩⟩,?_⟩
  · intro task htask
    rw [h.idle task htask]
    trivial
  · intro caught n lines hx
    exact absurd hx h.idle.not_pending
  · intro caught lines hx
    exact absurd hx h.idle.not_pending
  · intro name
    rw [h.consistent.lines name,mem_activeNames]
  · intro k hk hactive
    exact .inl (h.consistent.files k.name ((h.consistent.lines k.name).mpr ⟨k,hk,hactive,rfl⟩))

theorem Tracked.consistent (h : Tracked s) (hidle : s.Idle) : Consistent s.shared := by
  have hcurrent : Current s := by
    rcases h.map with ⟨x,hx,-⟩ | hcurrent
    · exact absurd hx hidle.not_pending
    · exact hcurrent
  rcases hcurrent.due with ⟨_,hx⟩ | ⟨-,honce,hlines⟩
  · exact absurd hx hidle.not_pending
  · have hmem : ∀ name, name ∈ s.shared.selectorsMap ↔
        ∃ k ∈ s.shared.table.keys.rows, k.status = .active ∧ k.name = name :=
      fun name => (hlines name).trans mem_activeNames
    refine ⟨honce,hmem,?_⟩
    intro name hname
    obtain ⟨k,hk,hactive,rfl⟩ := (hmem name).mp hname
    rcases h.files k hk hactive with hfile | hdue
    · exact hfile
    · obtain ⟨x,hx,-⟩ := fileDue_iff.mp hdue
      exact absurd hx hidle.not_pending

/-- In orderly runs the map and the key files agree with the table whenever nothing is
in flight. -/
theorem signing_map_agrees (cfg : RotationConfig) {s₀ s : KeyTasks} (hstart : Started s₀)
    (hrun : Run (keyStep cfg) (Orderly cfg) s₀ s) (hidle : s.Idle) : Consistent s.shared :=
  (hrun.invariant (fun _ _ _ h ha hstep => tracked_step h ha hstep) hstart.tracked).consistent hidle

def manualConfig : RotationConfig := ⟨false,0,0⟩

def pendingState : KeyTasks where
  shared := ⟨⟨⟨[⟨1,js "a.com",js "jm",7,.pending,0,none⟩,⟨2,js "b.com",js "jm",8,.pending,0,none⟩],by decide⟩,by decide⟩,
    fun _ => none,[],0,0⟩
  running := []

theorem pendingState_started : Started pendingState := by
  refine ⟨fun task htask => absurd htask List.not_mem_nil,rfl,List.nodup_nil,?_,?_⟩
  · intro name
    simp [pendingState]
  · intro name hname
    exact absurd hname List.not_mem_nil

def quietEnv : KeyEnv := ⟨0,js "jm",9,9,false,false⟩

/-- What a reader of the key directory sees, and the active keys. -/
structure DirectoryView where
  idle : Bool
  lines : List KeyName
  active : List KeyName
  deriving DecidableEq

def directoryView (s : KeyTasks) : DirectoryView :=
  ⟨s.isIdle,s.shared.selectorsMap,s.shared.table.activeNames⟩

theorem signing_map_after_activation :
    ∃ s, Run (keyStep manualConfig) (Orderly manualConfig) pendingState s ∧
      s.shared.selectorsMap = [(js "a.com",js "jm")] ∧ Consistent s.shared := by
  have htrace : (runActions (keyStep manualConfig) (Orderly manualConfig) pendingState
      (.call (.activate (js "a.com") 1) :: List.replicate 6 (.exec 0 quietEnv))).map directoryView =
      some ⟨true,[(js "a.com",js "jm")],[(js "a.com",js "jm")]⟩ := by
    decide +kernel
  obtain ⟨s,hs,hview⟩ := Option.map_eq_some_iff.mp htrace
  have hrun := Run.of_actions hs
  exact ⟨s,hrun,congrArg DirectoryView.lines hview,
    signing_map_agrees manualConfig pendingState_started hrun (Tasks.idle_of_isIdle (congrArg DirectoryView.idle hview))⟩

/-- The first activation writes its snapshot after the second has finished: the second
key is active and not listed. -/
theorem stale_snapshot_drops_key :
    ∃ s, Run (keyStep manualConfig) (Succeeds manualConfig) pendingState s ∧ s.Idle ∧ ¬Consistent s.shared := by
  have htrace : (runActions (keyStep manualConfig) (Succeeds manualConfig) pendingState
      (.call (.activate (js "a.com") 1) :: List.replicate 5 (.exec 0 quietEnv) ++
        .call (.activate (js "b.com") 2) :: List.replicate 6 (.exec 1 quietEnv) ++ [.exec 0 quietEnv])).map directoryView =
      some ⟨true,[(js "a.com",js "jm")],[(js "a.com",js "jm"),(js "b.com",js "jm")]⟩ := by
    decide +kernel
  obtain ⟨s,hs,hview⟩ := Option.map_eq_some_iff.mp htrace
  refine ⟨s,Run.of_actions hs,Tasks.idle_of_isIdle (congrArg DirectoryView.idle hview),fun h => ?_⟩
  have hmap : s.shared.selectorsMap = [(js "a.com",js "jm")] := congrArg DirectoryView.lines hview
  have hactive : s.shared.table.activeNames = [(js "a.com",js "jm"),(js "b.com",js "jm")] :=
    congrArg DirectoryView.active hview
  have hmem : (js "b.com",js "jm") ∈ s.shared.selectorsMap := by
    refine (h.lines _).mpr (mem_activeNames.mp ?_)
    rw [hactive]
    decide
  rw [hmap] at hmem
  revert hmem
  decide

end Invariant
end JustMail.Dkim
