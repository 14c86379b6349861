import JustMail.Attachments.Uploads

/-! Calls of `appendChunk` that run at the same time. -/
namespace JustMail.Attachments
open Foundation

section Statement
variable (sha256 : Bytes → JsString)

/-- The chunks of an upload whose calls returned, with their offsets, in the order of
the returns. -/
def chunksOf (events : List UploadEvent) (id : Nat) : List (Nat × Bytes) :=
  events.filterMap fun
    | .appended id' offset chunk => if id' = id then some (offset,chunk) else none
    | _ => none

/-- Their concatenation. -/
def joined (chunks : List (Nat × Bytes)) : Bytes := (chunks.map Prod.snd).flatten

/-- The staged object holds the chunks in the order of their offsets, and both counters
are its length. -/
structure Intact (s : UploadState) (row : UploadRow) : Prop where
  staged : s.staged row.id = joined ((chunksOf s.returned row.id).mergeSort fun a b => a.1 ≤ b.1)
  length : (s.staged row.id).length = row.offsetBytes
  counters : row.offsetBytes = row.uploadedBytes
  fits : row.uploadedBytes ≤ row.sizeBytes

/-- Uploads as `createUpload` leaves them, with no call made yet. -/
structure Fresh (s : UploadTasks) : Prop where
  idle : s.Idle
  returned : s.shared.returned = []
  rows : ∀ row ∈ s.shared.uploads.rows, row.uploadedBytes = 0 ∧ row.offsetBytes = 0 ∧ s.shared.objects row.storageKey = none

/-- An instruction of a call on the upload that has passed its checks. -/
def passedBy (id : Nat) : UploadInstr → Bool
  | .readStaged u _ | .putStaged u _ _ | .updateCounters u _ => u.id = id
  | _ => false

def NoFault {ω : Type} : TaskAction ω Fault → Prop
  | .call _ => True
  | .exec _ fault => fault.fails = false

/-- A call passes its checks only while no other that passed them is in flight. -/
def Alone (s : UploadTasks) : UploadInstr → Prop
  | .selectUpload id offset chunk =>
    ((UploadInstr.selectUpload id offset chunk).run sha256 s.shared).isSome = true → s.inFlight (passedBy id) = []
  | _ => True

def Exclusive (s : UploadTasks) (a : TaskAction AppendCall Fault) : Prop :=
  NoFault a ∧ ∀ instr ∈ s.instr a, Alone sha256 s instr

instance {ω : Type} : DecidablePred (NoFault (ω := ω)) := fun a =>
  match a with
  | .call _ => .isTrue trivial
  | .exec _ fault => inferInstanceAs (Decidable (fault.fails = false))

instance (s : UploadTasks) : DecidablePred (Alone sha256 s) := fun instr =>
  match instr with
  | .selectUpload id offset chunk => inferInstanceAs (Decidable
    (((UploadInstr.selectUpload id offset chunk).run sha256 s.shared).isSome = true → s.inFlight (passedBy id) = []))
  | .readStaged _ _ | .putStaged _ _ _ | .updateCounters _ _ | .selectComplete _ | .streamStaged _ | .selectExisting _ _ |
    .putFinal _ _ | .removeStaged _ _ | .insertAttachment _ _ | .deleteUpload _ _ => .isTrue trivial

instance (s : UploadTasks) (a : TaskAction AppendCall Fault) : Decidable (Exclusive sha256 s a) :=
  inferInstanceAs (Decidable (_ ∧ _))

end Statement

section Invariant
variable {sha256 : Bytes → JsString} {s t : UploadTasks} {a : TaskAction AppendCall Fault} {instr : UploadInstr}

/-- The counters against the chunks that returned. -/
structure Counted (s : UploadState) (row : UploadRow) : Prop where
  counters : row.offsetBytes = row.uploadedBytes
  fits : row.uploadedBytes ≤ row.sizeBytes
  length : (joined (chunksOf s.returned row.id)).length = row.offsetBytes
  ordered : (chunksOf s.returned row.id).Pairwise fun a b => a.1 ≤ b.1
  bounded : ∀ c ∈ chunksOf s.returned row.id, c.1 ≤ row.offsetBytes

/-- What the one call that passed its checks relies on, at each of its steps. -/
def Flight (s : UploadState) (row : UploadRow) : UploadInstr → Prop
  | .readStaged u chunk => u = row ∧ row.uploadedBytes + chunk.length ≤ row.sizeBytes ∧
    s.staged row.id = joined (chunksOf s.returned row.id)
  | .putStaged u chunk merged => u = row ∧ row.uploadedBytes + chunk.length ≤ row.sizeBytes ∧
    merged = joined (chunksOf s.returned row.id) ++ chunk
  | .updateCounters u chunk => u = row ∧ row.uploadedBytes + chunk.length ≤ row.sizeBytes ∧
    s.staged row.id = joined (chunksOf s.returned row.id) ++ chunk
  | _ => False

def UploadInstr.isAppend : UploadInstr → Bool
  | .selectUpload _ _ _ | .readStaged _ _ | .putStaged _ _ _ | .updateCounters _ _ => true
  | _ => false

/-- The upload is complete up to its counters, or exactly one call is adding to it. -/
def Sound (s : UploadTasks) (row : UploadRow) : Prop :=
  Counted s.shared row ∧
  ((s.inFlight (passedBy row.id) = [] ∧ s.shared.staged row.id = joined (chunksOf s.shared.returned row.id)) ∨
    ∃ x, s.inFlight (passedBy row.id) = [x] ∧ Flight s.shared row x)

structure AppendInv (s : UploadTasks) : Prop where
  tasks : ∀ task ∈ s.running, task = [] ∨ ∃ x, task = [x] ∧ x.isAppend = true
  rows : ∀ row ∈ s.shared.uploads.rows, Sound s row

theorem chunksOf_appended (events : List UploadEvent) (id id' offset : Nat) (chunk : Bytes) :
    chunksOf (events ++ [.appended id offset chunk]) id' =
      chunksOf events id' ++ if id = id' then [(offset,chunk)] else [] := by
  rw [chunksOf,List.filterMap_append]
  by_cases hid : id = id' <;> simp [chunksOf,hid]

theorem joined_append (chunks : List (Nat × Bytes)) (offset : Nat) (chunk : Bytes) :
    joined (chunks ++ [(offset,chunk)]) = joined chunks ++ chunk := by
  simp [joined]

section Rows
variable {row u : UploadRow} {instr : UploadInstr} {i : Nat} {shared : UploadState} {new : List UploadInstr}
  {chunk merged : Bytes}

theorem Counted.congr (h : Counted s.shared row)
    (hchunks : chunksOf shared.returned row.id = chunksOf s.shared.returned row.id) : Counted shared row := by
  refine ⟨h.counters,h.fits,?_,?_,?_⟩
  · rw [hchunks]
    exact h.length
  · rw [hchunks]
    exact h.ordered
  · rw [hchunks]
    exact h.bounded

/-- A step of a call on another upload, or of one that has not passed its checks. -/
theorem Sound.keep (h : Sound s row) (hi : s.running[i]? = some [instr]) (hp : passedBy row.id instr = false)
    (hnew : new.filter (passedBy row.id) = []) (hstaged : shared.staged row.id = s.shared.staged row.id)
    (hchunks : chunksOf shared.returned row.id = chunksOf s.shared.returned row.id) :
    Sound ⟨shared,s.running.set i new⟩ row := by
  have hflight : Tasks.inFlight ⟨shared,s.running.set i new⟩ (passedBy row.id) = s.inFlight (passedBy row.id) := by
    rw [Tasks.inFlight_other hi hp shared (.inr hnew),hnew,List.append_nil]
  refine ⟨h.1.congr hchunks,?_⟩
  rw [hflight,hstaged,hchunks]
  refine h.2.imp_right fun ⟨x,hx,hflight⟩ => ⟨x,hx,?_⟩
  cases x with
  | readStaged u chunk => exact ⟨hflight.1,hflight.2.1,by rw [hstaged,hchunks]; exact hflight.2.2⟩
  | putStaged u chunk merged => exact ⟨hflight.1,hflight.2.1,by rw [hchunks]; exact hflight.2.2⟩
  | updateCounters u chunk => exact ⟨hflight.1,hflight.2.1,by rw [hstaged,hchunks]; exact hflight.2.2⟩
  | _ => exact hflight.elim

/-- The step of a call that passed its checks on this upload. -/
theorem Sound.flight (h : Sound s row) (hi : s.running[i]? = some [instr]) (hp : passedBy row.id instr = true) :
    Flight s.shared row instr ∧ ∀ (shared : UploadState) (new : List UploadInstr),
      Tasks.inFlight ⟨shared,s.running.set i new⟩ (passedBy row.id) = new.filter (passedBy row.id) := by
  rcases h.2 with ⟨hnone,-⟩ | ⟨x,hx,hflight⟩
  · obtain ⟨before,after,hbefore,-⟩ := Tasks.inFlight_exec (passedBy row.id) hi
    rw [hnone,List.filter_cons_of_pos hp] at hbefore
    simp at hbefore
  · obtain ⟨rfl,hnext⟩ := Tasks.inFlight_only hi hp hx
    exact ⟨hflight,hnext⟩

theorem sound_select {offset : Nat} (h : Sound s row) (hrow : row ∈ s.shared.uploads.rows)
    (hi : s.running[i]? = some [.selectUpload u.id offset chunk]) (hu : s.shared.uploads.lookup u.id = some u)
    (hfits : u.uploadedBytes + chunk.length ≤ u.sizeBytes) (halone : s.inFlight (passedBy u.id) = []) :
    Sound ⟨s.shared,s.running.set i [.readStaged u chunk]⟩ row := by
  by_cases hid : u.id = row.id
  · have hsame : row = u := by
      have hlookup := Table.lookup_of_mem hrow
      rw [← hid,hu] at hlookup
      exact (Option.some.inj hlookup).symm
    subst hsame
    refine ⟨h.1,.inr ⟨.readStaged row chunk,?_,rfl,hfits,?_⟩⟩
    · rw [Tasks.inFlight_other hi rfl s.shared (.inl halone),halone]
      simp [passedBy]
    · rcases h.2 with ⟨-,hstaged⟩ | ⟨x,hx,-⟩
      · exact hstaged
      · simp [halone] at hx
  · exact h.keep hi rfl (by simp [passedBy,hid]) rfl rfl

theorem sound_read (h : Sound s row) (hi : s.running[i]? = some [.readStaged u chunk]) :
    Sound ⟨s.shared,s.running.set i [.putStaged u chunk (s.shared.staged u.id ++ chunk)]⟩ row := by
  by_cases hid : u.id = row.id
  · obtain ⟨⟨rfl,hfits,hstaged⟩,hnext⟩ := h.flight hi (decide_eq_true hid)
    refine ⟨h.1,.inr ⟨.putStaged u chunk (s.shared.staged u.id ++ chunk),?_,rfl,hfits,?_⟩⟩
    · rw [hnext]
      exact List.filter_cons_of_pos (by simp [passedBy])
    · rw [hstaged]
  · exact h.keep hi (decide_eq_false hid) (by simp [passedBy,hid]) rfl rfl

theorem sound_put (h : Sound s row) (hi : s.running[i]? = some [.putStaged u chunk merged]) :
    Sound ⟨s.shared.setObject u.storageKey (some merged),s.running.set i [.updateCounters u chunk]⟩ row := by
  by_cases hid : u.id = row.id
  · obtain ⟨⟨rfl,hfits,rfl⟩,hnext⟩ := h.flight hi (decide_eq_true hid)
    refine ⟨h.1.congr rfl,.inr ⟨.updateCounters u chunk,?_,rfl,hfits,?_⟩⟩
    · rw [hnext]
      exact List.filter_cons_of_pos (by simp [passedBy])
    · exact s.shared.setObject_staged u.id _
  · refine h.keep hi (decide_eq_false hid) (by simp [passedBy,hid]) (s.shared.setObject_staged_ne ?_ _) rfl
    intro heq
    exact hid (StorageKey.upload.inj heq).symm

private theorem countBytes_id (n : Nat) (u : UploadRow) : (countBytes n u).id = u.id := rfl

theorem Counted.count (h : Counted s.shared u) (hfits : u.uploadedBytes + chunk.length ≤ u.sizeBytes)
    (hchunks : chunksOf shared.returned u.id = chunksOf s.shared.returned u.id ++ [(u.offsetBytes,chunk)]) :
    Counted shared (countBytes chunk.length u) := by
  have hcounters := h.counters
  refine ⟨by simp only [countBytes,hcounters],hfits,?_,?_,?_⟩
  · rw [countBytes_id,hchunks,joined_append,List.length_append,h.length]
    rfl
  · rw [countBytes_id,hchunks,List.pairwise_append]
    refine ⟨h.ordered,List.pairwise_singleton _ _,?_⟩
    intro c hc c' hc'
    rw [List.mem_singleton.mp hc']
    exact h.bounded c hc
  · rw [countBytes_id,hchunks]
    intro c hc
    rcases List.mem_append.mp hc with hc | hc
    · exact (h.bounded c hc).trans (Nat.le_add_right _ _)
    · rw [List.mem_singleton.mp hc]
      exact Nat.le_add_right _ _

theorem sound_update (h : Sound s row) (hi : s.running[i]? = some [.updateCounters u chunk]) :
    Sound ⟨(s.shared.count u.id chunk.length).answer (some (.appended u.id u.offsetBytes chunk)),s.running.set i []⟩
      (if row.id = u.id then countBytes chunk.length row else row) := by
  have hchunks : ∀ id, chunksOf ((s.shared.count u.id chunk.length).answer
      (some (.appended u.id u.offsetBytes chunk))).returned id =
      chunksOf s.shared.returned id ++ if u.id = id then [(u.offsetBytes,chunk)] else [] :=
    fun id => chunksOf_appended s.shared.returned u.id id u.offsetBytes chunk
  by_cases hid : u.id = row.id
  · obtain ⟨⟨rfl,hfits,hstaged⟩,hnext⟩ := h.flight hi (decide_eq_true hid)
    have hown := hchunks u.id
    rw [if_pos rfl] at hown
    rw [if_pos rfl]
    refine ⟨h.1.count hfits hown,.inl ⟨hnext _ _,?_⟩⟩
    rw [countBytes_id,hown,joined_append]
    exact hstaged
  · rw [if_neg fun heq => hid heq.symm]
    refine h.keep hi (decide_eq_false hid) rfl rfl ?_
    rw [hchunks,if_neg hid,List.append_nil]

end Rows
/-- An operation of an append has one instruction left at most. -/
theorem AppendInv.task {i : Nat} {rest : List UploadInstr} (h : AppendInv s)
    (hi : s.running[i]? = some (instr :: rest)) : rest = [] ∧ instr.isAppend = true := by
  rcases h.tasks _ (List.mem_of_getElem? hi) with hnil | ⟨x,hx,happend⟩
  · simp at hnil
  · cases hx
    exact ⟨rfl,happend⟩

theorem appendInv_call (h : AppendInv s) (call : AppendCall) : AppendInv ⟨s.shared,s.running ++ [appendBody call]⟩ := by
  refine ⟨?_,?_⟩
  · intro task htask
    rcases List.mem_append.mp htask with htask | htask
    · exact h.tasks task htask
    · exact .inr ⟨_,List.mem_singleton.mp htask,rfl⟩
  · intro row hrow
    have hflight : Tasks.inFlight ⟨s.shared,s.running ++ [appendBody call]⟩ (passedBy row.id) =
        s.inFlight (passedBy row.id) := Tasks.inFlight_call (by simp [appendBody,passedBy])
    rw [Sound,hflight]
    exact h.rows row hrow

/-- A call that ends in an exception changes nothing. -/
theorem appendInv_throw {i : Nat} (h : AppendInv s) (hi : s.running[i]? = some [instr])
    (hthrow : instr.run sha256 s.shared = none) : AppendInv ⟨s.shared,s.running.set i []⟩ := by
  refine ⟨Tasks.forall_set h.tasks (.inl rfl),fun row hrow => ?_⟩
  refine (h.rows row hrow).keep hi ?_ rfl rfl rfl
  cases instr with
  | updateCounters u chunk =>
    -- only an upload that is gone makes the counters' update throw
    refine decide_eq_false fun hid => ?_
    simp only [UploadInstr.run,hid,Table.lookup_of_mem hrow] at hthrow
    simp at hthrow
  | readStaged u chunk => simp [UploadInstr.run] at hthrow
  | putStaged u chunk merged => simp [UploadInstr.run] at hthrow
  | _ => rfl

theorem appendInv_run {i : Nat} {shared : UploadState} {more : List UploadInstr} (h : AppendInv s)
    (hi : s.running[i]? = some [instr]) (happend : instr.isAppend = true) (halone : Alone sha256 s instr)
    (hrun : instr.run sha256 s.shared = some (shared,more)) : AppendInv ⟨shared,s.running.set i more⟩ := by
  cases instr with
  | selectUpload id offset chunk =>
    have halone := halone (by rw [hrun]; rfl)
    obtain ⟨u,hu,-,hfits,rfl,rfl⟩ := run_selectUpload hrun
    obtain rfl := Table.key_of_lookup hu
    refine ⟨Tasks.forall_set h.tasks (.inr ⟨_,rfl,rfl⟩),fun row hrow => ?_⟩
    exact sound_select (h.rows row hrow) hrow hi hu hfits halone
  | readStaged u chunk =>
    cases hrun
    exact ⟨Tasks.forall_set h.tasks (.inr ⟨_,rfl,rfl⟩),fun row hrow => sound_read (h.rows row hrow) hi⟩
  | putStaged u chunk merged =>
    cases hrun
    exact ⟨Tasks.forall_set h.tasks (.inr ⟨_,rfl,rfl⟩),fun row hrow => sound_put (h.rows row hrow) hi⟩
  | updateCounters u chunk =>
    obtain ⟨rfl,rfl⟩ := run_updateCounters hrun
    refine ⟨Tasks.forall_set h.tasks (.inl rfl),fun row hrow => ?_⟩
    obtain ⟨r,hr,rfl⟩ := s.shared.mem_count.mp hrow
    exact sound_update (h.rows r hr) hi
  | _ => simp [UploadInstr.isAppend] at happend

theorem appendInv_step (h : AppendInv s) (hexclusive : Exclusive sha256 s a) (hstep : appendStep sha256 s a = some t) :
    AppendInv t := by
  rcases uploadStep_cases hstep with ⟨call,rfl,rfl⟩ | ⟨i,fault,instr,rest,rfl,hi,hcases⟩
  · exact appendInv_call h call
  · obtain ⟨rfl,happend⟩ := h.task hi
    rcases hcases with ⟨hfails,-⟩ | ⟨-,hthrow,rfl⟩ | ⟨shared,more,-,hrun,rfl⟩
    · exact absurd (hexclusive.1.symm.trans hfails) Bool.false_ne_true
    · exact appendInv_throw h hi hthrow
    · rw [List.append_nil]
      exact appendInv_run h hi happend (hexclusive.2 instr (Tasks.instr_exec hi)) hrun

theorem Fresh.appendInv (h : Fresh s) : AppendInv s := by
  refine ⟨fun task htask => .inl (h.idle task htask),fun row hrow => ?_⟩
  obtain ⟨huploaded,hoffset,hobject⟩ := h.rows row hrow
  have hchunks : chunksOf s.shared.returned row.id = [] := by
    rw [h.returned]
    rfl
  refine ⟨⟨hoffset.trans huploaded.symm,huploaded.trans_le (Nat.zero_le _),?_,?_,?_⟩,.inl ⟨h.idle.inFlight,?_⟩⟩
  · rw [hchunks,hoffset]
    rfl
  · rw [hchunks]
    exact List.Pairwise.nil
  · rw [hchunks]
    exact fun c hc => absurd hc List.not_mem_nil
  · rw [hchunks,UploadState.staged]
    exact congrArg (fun content : Option Bytes => content.getD []) hobject

/-- As long as the calls on an upload pass their checks one after the other, every idle
state has its bytes and counters in step. -/
theorem uploads_intact (sha256 : Bytes → JsString) {s₀ s : UploadTasks} (hfresh : Fresh s₀)
    (hrun : Run (appendStep sha256) (Exclusive sha256) s₀ s) (hidle : s.Idle) :
    ∀ row ∈ s.shared.uploads.rows, Intact s.shared row := by
  intro row hrow
  have hinv := hrun.invariant (fun _ _ _ h ha hstep => appendInv_step h ha hstep) hfresh.appendInv
  obtain ⟨hcounted,hstaged | ⟨x,hx,-⟩⟩ := hinv.rows row hrow
  · have hsorted : (chunksOf s.shared.returned row.id).mergeSort (fun a b => a.1 ≤ b.1) =
        chunksOf s.shared.returned row.id :=
      List.mergeSort_of_pairwise (hcounted.ordered.imp fun h => decide_eq_true h)
    refine ⟨?_,?_,hcounted.counters,hcounted.fits⟩
    · rw [hsorted]
      exact hstaged.2
    · rw [hstaged.2]
      exact hcounted.length
  · simp [hidle.inFlight] at hx

def newUpload : UploadTasks where
  shared := ⟨⟨[⟨1,js "a.txt",js "text/plain",3,0,0⟩],by decide⟩,.empty,fun _ => none,[]⟩
  running := []

theorem newUpload_fresh : Fresh newUpload := by
  refine ⟨fun task htask => absurd htask List.not_mem_nil,rfl,fun row hrow => ?_⟩
  rw [List.mem_singleton.mp hrow]
  exact ⟨rfl,rfl,rfl⟩

structure UploadView where
  idle : Bool
  staged : Bytes
  rows : List UploadRow
  deriving DecidableEq

def uploadView (s : UploadTasks) : UploadView := ⟨s.isIdle,s.shared.staged 1,s.shared.uploads.rows⟩

def quiet : Fault := ⟨false⟩

theorem uploads_intact_two_chunks :
    ∃ s, Run (appendStep sampleSha256) (Exclusive sampleSha256) newUpload s ∧ s.shared.staged 1 = [97,98,99] ∧
      ∀ row ∈ s.shared.uploads.rows, Intact s.shared row := by
  have htrace : (runActions (appendStep sampleSha256) (Exclusive sampleSha256) newUpload
      (.call ⟨1,0,[97,98]⟩ :: List.replicate 4 (.exec 0 quiet) ++ .call ⟨1,2,[99]⟩ :: List.replicate 4 (.exec 1 quiet))).map
        uploadView = some ⟨true,[97,98,99],[⟨1,js "a.txt",js "text/plain",3,3,3⟩]⟩ := by
    decide +kernel
  obtain ⟨s,hs,hview⟩ := Option.map_eq_some_iff.mp htrace
  have hrun := Run.of_actions hs
  exact ⟨s,hrun,congrArg UploadView.staged hview,
    uploads_intact sampleSha256 newUpload_fresh hrun (Tasks.idle_of_isIdle (congrArg UploadView.idle hview))⟩

/-- Two chunks at the same offset that both pass the check: the counters see both, the
staged object only the later one. -/
theorem racing_chunks_corrupt :
    ∃ s, Run (appendStep sampleSha256) (fun _ => NoFault) newUpload s ∧ s.Idle ∧
      ¬∀ row ∈ s.shared.uploads.rows, Intact s.shared row := by
  have htrace : (runActions (appendStep sampleSha256) (fun _ => NoFault) newUpload
      ([.call ⟨1,0,[97]⟩,.call ⟨1,0,[98]⟩] ++ (List.replicate 4 [.exec 0 quiet,.exec 1 quiet]).flatten)).map uploadView =
      some ⟨true,[98],[⟨1,js "a.txt",js "text/plain",3,2,2⟩]⟩ := by
    decide +kernel
  obtain ⟨s,hs,hview⟩ := Option.map_eq_some_iff.mp htrace
  refine ⟨s,Run.of_actions hs,Tasks.idle_of_isIdle (congrArg UploadView.idle hview),fun h => ?_⟩
  have hrows : s.shared.uploads.rows = [⟨1,js "a.txt",js "text/plain",3,2,2⟩] := congrArg UploadView.rows hview
  have hstaged : s.shared.staged 1 = [98] := congrArg UploadView.staged hview
  have hlength := (h ⟨1,js "a.txt",js "text/plain",3,2,2⟩ (hrows ▸ List.mem_cons_self)).length
  rw [hstaged] at hlength
  simp at hlength

end Invariant
end JustMail.Attachments
