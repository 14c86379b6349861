import JustMail.Attachments.Append

/-! Calls of `finaliseUpload` that run at the same time, over uploads that may have the
same content. -/
namespace JustMail.Attachments
open Foundation

section Statement
variable (sha256 : Bytes → JsString)

def UploadRow.Complete (row : UploadRow) : Prop := row.uploadedBytes = row.sizeBytes

def Addressed (s : UploadState) (contentHash : JsString) : Prop :=
  ∃ body, s.objects (.attachment contentHash) = some body ∧ sha256 body = contentHash

/-- The staged object is there, and `finaliseUpload` on its own returns an attachment. -/
def Retryable (s : UploadState) (row : UploadRow) : Prop :=
  (s.objects row.storageKey).isSome = true ∧
  ∃ n s', runAlone (execUpload sha256) s (finaliseBody row.id) (List.replicate n quiet) = some (s',true)

/-- Uploads that are still staged if they are complete, beside attachments in order. -/
structure Staged (s : UploadTasks) : Prop where
  idle : s.Idle
  rows : ∀ row ∈ s.shared.uploads.rows, row.Complete → (s.shared.objects row.storageKey).isSome = true
  attachments : ∀ row ∈ s.shared.attachments.rows, row.storageKey = .attachment row.contentHash ∧
    Addressed sha256 s.shared row.contentHash

/-- An instruction of a call that holds the bytes of the upload and goes on to delete its
row. Only one instruction of a call is counted. -/
def carries (id : Nat) : UploadInstr → Bool
  | .selectExisting u _ | .deleteUpload u _ => u.id = id
  | _ => false

/-- The upload whose bytes the call holds, where the instruction can end the call. -/
def UploadInstr.held : UploadInstr → Option Nat
  | .selectExisting u _ | .putFinal u _ | .insertAttachment u _ | .deleteUpload u _ => some u.id
  | _ => none

/-- The access fails, or the INSERT meets the content hash in the table. -/
def UploadInstr.Fails (s : UploadState) (fault : Fault) : UploadInstr → Prop
  | .insertAttachment _ body => fault.fails = true ∨ (s.attachments.lookup (sha256 body)).isSome = true
  | _ => fault.fails = true

/-- The upload survives the end of call `i`: its row is gone, it is still staged, or
another call holds its bytes. -/
def Rescued (s : UploadTasks) (i id : Nat) : Prop :=
  s.shared.uploads.lookup id = none ∨ (s.shared.objects (.upload id)).isSome = true ∨
    Tasks.inFlight ⟨s.shared,s.running.set i []⟩ (carries id) ≠ []

def Guarded (s : UploadTasks) : TaskAction Nat Fault → Prop
  | .call _ => True
  | .exec i fault => ∀ instr ∈ s.instr (.exec i fault : TaskAction Nat Fault), ∀ id ∈ instr.held,
    instr.Fails sha256 s.shared fault → Rescued s i id

instance (s : UploadState) (fault : Fault) : DecidablePred (UploadInstr.Fails sha256 s fault) := fun instr =>
  match instr with
  | .insertAttachment _ body =>
    inferInstanceAs (Decidable (fault.fails = true ∨ (s.attachments.lookup (sha256 body)).isSome = true))
  | .selectUpload _ _ _ | .readStaged _ _ | .putStaged _ _ _ | .updateCounters _ _ | .selectComplete _ | .streamStaged _ |
    .selectExisting _ _ | .putFinal _ _ | .removeStaged _ _ | .deleteUpload _ _ => inferInstanceAs (Decidable (fault.fails = true))

instance (s : UploadTasks) (i id : Nat) : Decidable (Rescued s i id) := inferInstanceAs (Decidable (_ ∨ _ ∨ _))

instance (s : UploadTasks) : DecidablePred (Guarded sha256 s) := fun a =>
  match a with
  | .call _ => .isTrue trivial
  | .exec i fault => inferInstanceAs (Decidable (∀ instr ∈ s.instr (.exec i fault : TaskAction Nat Fault),
    ∀ id ∈ instr.held, instr.Fails sha256 s.shared fault → Rescued s i id))

end Statement

section Invariant
variable {sha256 : Bytes → JsString} {s t : UploadTasks} {shared shared' : UploadState} {i : Nat}

/-- What is left of a call, and what it relies on. -/
inductive Shape (sha256 : Bytes → JsString) (s : UploadState) : List UploadInstr → Prop
  | done : Shape sha256 s []
  | selectComplete (id : Nat) : Shape sha256 s [.selectComplete id]
  | streamStaged (u : UploadRow) : Shape sha256 s [.streamStaged u]
  | selectExisting (u : UploadRow) (body : Bytes) : Shape sha256 s [.selectExisting u body]
  | putFinal (u : UploadRow) (body : Bytes) : Shape sha256 s (promotion sha256 u body)
  | removeStaged (u : UploadRow) {body : Bytes} (h : Addressed sha256 s (sha256 body)) :
    Shape sha256 s (promotion sha256 u body).tail
  | insertAttachment (u : UploadRow) {body : Bytes} (h : Addressed sha256 s (sha256 body)) :
    Shape sha256 s ((promotion sha256 u body).drop 2)
  | deleteUpload (u : UploadRow) (result : Option UploadEvent) : Shape sha256 s [.deleteUpload u result]
  | deleteDuplicate (u : UploadRow) (result : Option UploadEvent) :
    Shape sha256 s [.deleteUpload u none,.removeStaged u result]
  | removeDuplicate {u : UploadRow} (result : Option UploadEvent) (h : s.uploads.lookup u.id = none) :
    Shape sha256 s [.removeStaged u result]

/-- The row's object is staged, or a call holds its bytes. -/
def Covered (s : UploadTasks) (row : UploadRow) : Prop :=
  (s.shared.objects row.storageKey).isSome = true ∨ s.inFlight (carries row.id) ≠ []

structure FinaliseInv (sha256 : Bytes → JsString) (s : UploadTasks) : Prop where
  tasks : ∀ task ∈ s.running, Shape sha256 s.shared task
  rows : ∀ row ∈ s.shared.uploads.rows, row.Complete → Covered s row
  attachments : ∀ row ∈ s.shared.attachments.rows, row.storageKey = .attachment row.contentHash ∧
    Addressed sha256 s.shared row.contentHash

/-- What no call undoes. -/
structure Later (sha256 : Bytes → JsString) (s s' : UploadState) : Prop where
  gone : ∀ id, s.uploads.lookup id = none → s'.uploads.lookup id = none
  addressed : ∀ contentHash, Addressed sha256 s contentHash → Addressed sha256 s' contentHash

theorem Later.refl : Later sha256 shared shared := ⟨fun _ h => h,fun _ h => h⟩

theorem Shape.later {task : List UploadInstr} (h : Shape sha256 shared task) (hlater : Later sha256 shared shared') :
    Shape sha256 shared' task := by
  cases h with
  | done => exact .done
  | selectComplete id => exact .selectComplete id
  | streamStaged u => exact .streamStaged u
  | selectExisting u body => exact .selectExisting u body
  | putFinal u body => exact .putFinal u body
  | removeStaged u h => exact .removeStaged u (hlater.addressed _ h)
  | insertAttachment u h => exact .insertAttachment u (hlater.addressed _ h)
  | deleteUpload u result => exact .deleteUpload u result
  | deleteDuplicate u result => exact .deleteDuplicate u result
  | removeDuplicate result h => exact .removeDuplicate result (hlater.gone _ h)

/-- A step leaves a row covered if it leaves its staged object, and what the call holds. -/
theorem Covered.keep {row : UploadRow} {instr : UploadInstr} {rest new : List UploadInstr} (h : Covered s row)
    (hi : s.running[i]? = some (instr :: rest)) (hobject : shared.objects row.storageKey = s.shared.objects row.storageKey)
    (hnew : (instr :: rest).filter (carries row.id) ≠ [] → new.filter (carries row.id) ≠ []) :
    Covered ⟨shared,s.running.set i new⟩ row := by
  rcases h with hstaged | hflight
  · exact .inl (by rw [hobject]; exact hstaged)
  · exact .inr (Tasks.inFlight_stays hi hflight hnew shared)

section Exec
variable {instr : UploadInstr} {rest more : List UploadInstr}

theorem run_later (hrun : instr.run sha256 shared = some (shared',more)) : Later sha256 shared shared' := by
  have heffect := run_effect hrun
  refine ⟨heffect.gone,fun contentHash ⟨body,hbody,hhash⟩ => ?_⟩
  by_cases hwrite : ∃ content, instr.write sha256 = some (.attachment contentHash,content)
  · obtain ⟨content,hwrite⟩ := hwrite
    have hobject := heffect.objects (.attachment contentHash)
    simp only [hwrite,if_true] at hobject
    cases instr with
    | putFinal u body' =>
      obtain ⟨hkey,rfl⟩ := Prod.mk.inj (Option.some.inj hwrite)
      exact ⟨body',hobject,StorageKey.attachment.inj hkey⟩
    | _ => simp [UploadInstr.write,UploadRow.storageKey] at hwrite
  · refine ⟨body,?_,hhash⟩
    rw [heffect.objects]
    split
    · rename_i key content hsome
      rw [if_neg fun hkey : .attachment contentHash = key => hwrite ⟨content,hkey ▸ hsome⟩]
      exact hbody
    · exact hbody

/-- The other calls are not disturbed. -/
theorem FinaliseInv.advance {new : List UploadInstr} (h : FinaliseInv sha256 s) (hlater : Later sha256 s.shared shared)
    (hshape : Shape sha256 shared new)
    (hrows : ∀ row ∈ shared.uploads.rows, row.Complete → Covered ⟨shared,s.running.set i new⟩ row)
    (hattachments : ∀ row ∈ shared.attachments.rows, row ∈ s.shared.attachments.rows ∨
      row.storageKey = .attachment row.contentHash ∧ Addressed sha256 shared row.contentHash) :
    FinaliseInv sha256 ⟨shared,s.running.set i new⟩ := by
  refine ⟨?_,hrows,fun row hrow => ?_⟩
  · exact Tasks.forall_set (s := ⟨s.shared,s.running⟩) (fun task htask => (h.tasks task htask).later hlater) hshape
  · rcases hattachments row hrow with hold | hnew
    · obtain ⟨hkey,haddressed⟩ := h.attachments row hold
      exact ⟨hkey,hlater.addressed _ haddressed⟩
    · exact hnew

/-- A call that holds the bytes of an upload shows it at its next instruction. -/
theorem Shape.held {id : Nat} (h : Shape sha256 shared (instr :: rest)) (hcarries : (instr :: rest).filter (carries id) ≠ [])
    (hremove : ∀ u result, instr ≠ .removeStaged u result) : instr.held = some id := by
  generalize hcall : instr :: rest = task at h
  rw [hcall] at hcarries
  cases h with
  | done => simp at hcall
  | selectComplete id => simp [carries] at hcarries
  | streamStaged u => simp [carries] at hcarries
  | selectExisting u body =>
    cases hcall
    simpa [carries,UploadInstr.held] using hcarries
  | putFinal u body =>
    cases hcall
    simpa [carries,UploadInstr.held,promotion] using hcarries
  | removeStaged u h =>
    cases hcall
    exact absurd rfl (hremove _ _)
  | insertAttachment u h =>
    cases hcall
    simpa [carries,UploadInstr.held,promotion] using hcarries
  | deleteUpload u result =>
    cases hcall
    simpa [carries,UploadInstr.held] using hcarries
  | deleteDuplicate u result =>
    cases hcall
    simpa [carries,UploadInstr.held] using hcarries
  | removeDuplicate result h =>
    cases hcall
    exact absurd rfl (hremove _ _)

theorem finaliseInv_throw (h : FinaliseInv sha256 s) (hi : s.running[i]? = some (instr :: rest))
    (hremove : ∀ u result, instr ≠ .removeStaged u result) (hrescued : ∀ id ∈ instr.held, Rescued s i id) :
    FinaliseInv sha256 ⟨s.shared,s.running.set i []⟩ := by
  refine h.advance .refl .done (fun row hrow hcomplete => ?_) (fun row hrow => .inl hrow)
  by_cases hcarries : (instr :: rest).filter (carries row.id) = []
  · exact (h.rows row hrow hcomplete).keep hi rfl fun hne => absurd hcarries hne
  · have hheld := (h.tasks _ (List.mem_of_getElem? hi)).held hcarries hremove
    rcases hrescued row.id hheld with hgone | hstaged | hflight
    · exact absurd hgone (by rw [Table.lookup_of_mem hrow]; simp)
    · exact .inl hstaged
    · exact .inr hflight

/-- A step that leaves the uploads and what is staged of them. -/
theorem FinaliseInv.unstaged {new : List UploadInstr} (h : FinaliseInv sha256 s)
    (hi : s.running[i]? = some (instr :: rest)) (hlater : Later sha256 s.shared shared) (hshape : Shape sha256 shared new)
    (huploads : shared.uploads = s.shared.uploads)
    (hobjects : ∀ id, shared.objects (.upload id) = s.shared.objects (.upload id))
    (hnew : ∀ id, (instr :: rest).filter (carries id) ≠ [] → new.filter (carries id) ≠ [])
    (hattachments : ∀ row ∈ shared.attachments.rows, row ∈ s.shared.attachments.rows ∨
      row.storageKey = .attachment row.contentHash ∧ Addressed sha256 shared row.contentHash) :
    FinaliseInv sha256 ⟨shared,s.running.set i new⟩ := by
  refine h.advance hlater hshape (fun row hrow hcomplete => ?_) hattachments
  rw [huploads] at hrow
  exact (h.rows row hrow hcomplete).keep hi (hobjects row.id) (hnew row.id)

/-- The removal of a staged object, by a call that still has to delete the row or has
deleted it. -/
theorem FinaliseInv.removed {u : UploadRow} {result : Option UploadEvent} (h : FinaliseInv sha256 s)
    (hi : s.running[i]? = some (.removeStaged u result :: rest))
    (hrest : ∀ shared, Later sha256 s.shared shared → Shape sha256 shared rest)
    (hdeletes : s.shared.uploads.lookup u.id = none ∨ rest.filter (carries u.id) ≠ []) :
    FinaliseInv sha256 ⟨(s.shared.setObject u.storageKey none).answer result,s.running.set i rest⟩ := by
  have hrun : (UploadInstr.removeStaged u result).run sha256 s.shared =
      some ((s.shared.setObject u.storageKey none).answer result,[]) := rfl
  have hlater := run_later hrun
  refine h.advance hlater (hrest _ hlater) (fun row hrow hcomplete => ?_) (fun row hrow => .inl hrow)
  by_cases hid : row.id = u.id
  · rcases hdeletes with hgone | hdelete
    · exact absurd hid (Table.lookup_eq_none.mp hgone row hrow)
    · exact .inr (Tasks.inFlight_adds hi (hid ▸ hdelete) _)
  · refine (h.rows row hrow hcomplete).keep hi ?_ fun hne => hne
    exact if_neg fun hkey => hid (StorageKey.upload.inj hkey)

theorem FinaliseInv.deleted {u : UploadRow} {result : Option UploadEvent} (h : FinaliseInv sha256 s)
    (hi : s.running[i]? = some (.deleteUpload u result :: rest))
    (hrest : Shape sha256 ((s.shared.deleteRow u.id).answer result) rest) :
    FinaliseInv sha256 ⟨(s.shared.deleteRow u.id).answer result,s.running.set i rest⟩ := by
  have hrun : (UploadInstr.deleteUpload u result).run sha256 s.shared =
      some ((s.shared.deleteRow u.id).answer result,[]) := rfl
  have hlater := run_later hrun
  refine h.advance hlater hrest (fun row hrow hcomplete => ?_) (fun row hrow => .inl hrow)
  obtain ⟨hrow,hid⟩ := s.shared.mem_deleteRow.mp hrow
  refine (h.rows row hrow hcomplete).keep hi rfl fun hne => ?_
  rw [List.filter_cons_of_neg (by simp [carries,Ne.symm hid])] at hne
  exact hne

theorem finaliseInv_run (h : FinaliseInv sha256 s) (hi : s.running[i]? = some (instr :: rest))
    (hrun : instr.run sha256 s.shared = some (shared,more)) : FinaliseInv sha256 ⟨shared,s.running.set i (more ++ rest)⟩ := by
  have hshape := h.tasks _ (List.mem_of_getElem? hi)
  have hlater := run_later hrun
  generalize hcall : instr :: rest = task at hshape
  cases hshape with
  | done => simp at hcall
  | selectComplete id =>
    cases hcall
    obtain ⟨u,-,-,rfl,rfl⟩ := run_selectComplete hrun
    exact h.unstaged hi hlater (.streamStaged _) rfl (fun _ => rfl) (by simp [carries]) (fun row hrow => .inl hrow)
  | streamStaged u =>
    cases hcall
    obtain ⟨body,-,rfl,rfl⟩ := run_streamStaged hrun
    exact h.unstaged hi hlater (.selectExisting u body) rfl (fun _ => rfl) (by simp [carries]) (fun row hrow => .inl hrow)
  | selectExisting u body =>
    cases hcall
    obtain ⟨rfl,rfl | rfl⟩ := run_selectExisting hrun
    · exact h.unstaged hi hlater (.deleteDuplicate u _) rfl (fun _ => rfl) (by simp [carries]) (fun row hrow => .inl hrow)
    · refine h.unstaged hi hlater (.putFinal u body) rfl (fun _ => rfl) ?_ (fun row hrow => .inl hrow)
      simp [carries,promotion]
  | putFinal u body =>
    cases hcall
    cases hrun
    have haddressed : Addressed sha256 (s.shared.setObject (.attachment (sha256 body)) (some body)) (sha256 body) :=
      ⟨body,if_pos rfl,rfl⟩
    exact h.unstaged hi hlater (.removeStaged u haddressed) rfl (fun _ => by rw [UploadState.setObject_objects,if_neg (by simp)])
      (by simp [carries]) (fun row hrow => .inl hrow)
  | removeStaged u haddressed =>
    obtain ⟨heq,rfl⟩ := List.cons.inj hcall
    subst heq
    cases hrun
    exact h.removed hi (fun _ hlater => .insertAttachment u (hlater.addressed _ haddressed))
      (.inr (by simp [carries]))
  | insertAttachment u haddressed =>
    cases hcall
    obtain ⟨huploads,hobjects,-,hrows,rfl⟩ := run_insertAttachment hrun
    refine h.unstaged hi hlater (.deleteUpload u _) huploads (fun _ => congrFun hobjects _) (by simp [carries]) (fun row hrow => ?_)
    rcases (hrows row).mp hrow with hold | rfl
    · exact .inl hold
    · exact .inr ⟨rfl,hlater.addressed _ haddressed⟩
  | deleteUpload u result =>
    cases hcall
    cases hrun
    exact h.deleted hi .done
  | deleteDuplicate u result =>
    cases hcall
    cases hrun
    exact h.deleted hi (.removeDuplicate result (s.shared.lookup_deleteRow u.id))
  | removeDuplicate result hgone =>
    cases hcall
    cases hrun
    exact h.removed hi (fun _ _ => .done) (.inl hgone)

theorem finaliseInv_failure (h : FinaliseInv sha256 s) (hi : s.running[i]? = some (instr :: rest))
    (hrescued : ∀ id ∈ instr.held, Rescued s i id) :
    FinaliseInv sha256 ⟨(instr.failure s.shared).1,s.running.set i ((instr.failure s.shared).2.continuation rest)⟩ := by
  have hshape := h.tasks _ (List.mem_of_getElem? hi)
  cases instr with
  | readStaged u chunk =>
    generalize hcall : UploadInstr.readStaged u chunk :: rest = task at hshape
    cases hshape with
    | _ => simp [promotion] at hcall
  | removeStaged u result =>
    -- the staged object stays, and the call goes on
    have hrest : Shape sha256 (s.shared.answer result) rest := by
      generalize hcall : UploadInstr.removeStaged u result :: rest = task at hshape
      cases hshape with
      | removeStaged u haddressed =>
        cases hcall
        exact .insertAttachment u haddressed
      | removeDuplicate result hgone =>
        cases hcall
        exact .done
      | _ => simp [promotion] at hcall
    exact h.unstaged hi ⟨fun _ h => h,fun _ h => h⟩ hrest rfl (fun _ => rfl) (fun _ hne => hne) (fun row hrow => .inl hrow)
  | _ => exact finaliseInv_throw h hi (by simp) hrescued

end Exec

/-- The INSERT goes through where the content hash is new. -/
theorem insertAttachment_run {u : UploadRow} {body : Bytes} (h : shared.attachments.lookup (sha256 body) = none) :
    ∃ shared', (UploadInstr.insertAttachment u body).run sha256 shared = some (shared',[]) := by
  have hnew : shared.attachments.lookup (attachmentOf sha256 u body).contentHash = none := h
  exact ⟨_,by rw [UploadInstr.run,dif_pos hnew]⟩

theorem fails_of_fault {instr : UploadInstr} {fault : Fault} (h : fault.fails = true) : instr.Fails sha256 shared fault := by
  cases instr with
  | insertAttachment u body => exact .inl h
  | _ => exact h

theorem fails_of_thrown {instr : UploadInstr} {fault : Fault} {id : Nat} (hthrow : instr.run sha256 shared = none)
    (hheld : instr.held = some id) :
    instr.Fails sha256 shared fault := by
  cases instr with
  | insertAttachment u body =>
    refine .inr (Option.isSome_iff_ne_none.mpr fun hnone => ?_)
    obtain ⟨s',hinsert⟩ := insertAttachment_run (u := u) hnone
    simp [hinsert] at hthrow
  | selectExisting u body =>
    simp only [UploadInstr.run] at hthrow
    split at hthrow <;> simp at hthrow
  | putFinal u body => simp [UploadInstr.run] at hthrow
  | deleteUpload u result => simp [UploadInstr.run] at hthrow
  | _ => simp [UploadInstr.held] at hheld

theorem finaliseInv_step {a : TaskAction Nat Fault} (h : FinaliseInv sha256 s) (hguarded : Guarded sha256 s a)
    (hstep : finaliseStep sha256 s a = some t) : FinaliseInv sha256 t := by
  rcases uploadStep_cases hstep with ⟨id,rfl,rfl⟩ | ⟨i,fault,instr,rest,rfl,hi,hcases⟩
  · refine ⟨fun task htask => ?_,fun row hrow hcomplete => ?_,h.attachments⟩
    · rcases List.mem_append.mp htask with htask | htask
      · exact h.tasks task htask
      · rw [List.mem_singleton.mp htask]
        exact .selectComplete id
    · have hflight : Tasks.inFlight ⟨s.shared,s.running ++ [finaliseBody id]⟩ (carries row.id) = s.inFlight (carries row.id) :=
        Tasks.inFlight_call (by simp [finaliseBody,carries])
      rw [Covered,hflight]
      exact h.rows row hrow hcomplete
  · have hrescued : instr.Fails sha256 s.shared fault → ∀ id ∈ instr.held, Rescued s i id :=
      fun hfails id hid => hguarded instr (Tasks.instr_exec hi) id hid hfails
    rcases hcases with ⟨hfails,rfl⟩ | ⟨-,hthrow,rfl⟩ | ⟨shared,more,-,hrun,rfl⟩
    · exact finaliseInv_failure h hi (hrescued (fails_of_fault hfails))
    · refine finaliseInv_throw h hi ?_ fun id hid => hrescued (fails_of_thrown hthrow hid) id hid
      rintro u result rfl
      cases hthrow
    · exact finaliseInv_run h hi hrun

theorem Staged.finaliseInv (h : Staged sha256 s) : FinaliseInv sha256 s := by
  refine ⟨fun task htask => ?_,fun row hrow hcomplete => .inl (h.rows row hrow hcomplete),h.attachments⟩
  rw [h.idle task htask]
  exact .done

theorem runAlone_quiet {instr : UploadInstr} {rest more : List UploadInstr}
    (hrun : instr.run sha256 shared = some (shared',more)) (n : Nat) :
    runAlone (execUpload sha256) shared (instr :: rest) (List.replicate (n+1) quiet) =
      runAlone (execUpload sha256) shared' (more ++ rest) (List.replicate n quiet) := by
  have hexec : execUpload sha256 shared instr quiet = some (shared',.next more) := by
    rw [execUpload,hrun]
    rfl
  exact runAlone_next hexec _

/-- A complete upload that is staged is finalised, with or without a duplicate. -/
theorem retryable_of_staged {row : UploadRow} (hrow : row ∈ shared.uploads.rows) (hcomplete : row.Complete)
    (hstaged : (shared.objects row.storageKey).isSome = true) : Retryable sha256 shared row := by
  refine ⟨hstaged,?_⟩
  obtain ⟨body,hbody⟩ := Option.isSome_iff_exists.mp hstaged
  have hselect : (UploadInstr.selectComplete row.id).run sha256 shared = some (shared,[.streamStaged row]) := by
    have hlookup : shared.uploads.lookup row.id = some row := Table.lookup_of_mem hrow
    simp only [UploadInstr.run,hlookup]
    exact if_neg (not_not.mpr hcomplete)
  have hstream : (UploadInstr.streamStaged row).run sha256 shared = some (shared,[.selectExisting row body]) := by
    rw [UploadInstr.run,hbody]
    rfl
  cases hexisting : shared.attachments.lookup (sha256 body) with
  | some existing =>
    have hdedup : (UploadInstr.selectExisting row body).run sha256 shared = some (shared,
        [.deleteUpload row none,.removeStaged row (some (.deduplicated row.id (sha256 body)))]) := by
      simp only [UploadInstr.run,hexisting]
    refine ⟨5,(((shared.deleteRow row.id).answer none).setObject row.storageKey none).answer
      (some (.deduplicated row.id (sha256 body))),?_⟩
    rw [finaliseBody,runAlone_quiet hselect,List.append_nil,runAlone_quiet hstream,List.append_nil,runAlone_quiet hdedup]
    rfl
  | none =>
    have hpromote : (UploadInstr.selectExisting row body).run sha256 shared = some (shared,promotion sha256 row body) := by
      simp only [UploadInstr.run,hexisting]
      rfl
    have hunchanged : (((shared.setObject (.attachment (sha256 body)) (some body)).setObject row.storageKey none).answer
        none).attachments.lookup (sha256 body) = none := hexisting
    obtain ⟨inserted,hinserted⟩ := insertAttachment_run (u := row) hunchanged
    refine ⟨7,(inserted.deleteRow row.id).answer (some (.stored row.id (sha256 body))),?_⟩
    rw [finaliseBody,runAlone_quiet hselect,List.append_nil,runAlone_quiet hstream,List.append_nil,runAlone_quiet hpromote,
      List.append_nil,promotion,runAlone_quiet rfl,List.nil_append,runAlone_quiet rfl,List.nil_append,
      runAlone_quiet hinserted,List.nil_append]
    rfl

/-- As long as a call that holds the bytes of an upload fails only where the upload
survives it, complete uploads can be finalised whenever no call is in flight; attachments
are always in order. -/
theorem finalise_retryable (sha256 : Bytes → JsString) {s₀ s : UploadTasks} (hstaged : Staged sha256 s₀)
    (hrun : Run (finaliseStep sha256) (Guarded sha256) s₀ s) :
    (s.Idle → ∀ row ∈ s.shared.uploads.rows, row.Complete → Retryable sha256 s.shared row) ∧
    ∀ row ∈ s.shared.attachments.rows, ∃ body, s.shared.objects row.storageKey = some body ∧ sha256 body = row.contentHash := by
  have hinv := hrun.invariant (fun _ _ _ h ha hstep => finaliseInv_step h ha hstep) hstaged.finaliseInv
  refine ⟨fun hidle row hrow hcomplete => ?_,fun row hrow => ?_⟩
  · rcases hinv.rows row hrow hcomplete with hobject | hflight
    · exact retryable_of_staged hrow hcomplete hobject
    · exact absurd hidle.inFlight hflight
  · obtain ⟨hkey,body,hbody,hhash⟩ := hinv.attachments row hrow
    exact ⟨body,by rw [hkey]; exact hbody,hhash⟩

/-- Two complete uploads of the same three bytes. -/
def twinUploads : UploadTasks where
  shared := ⟨⟨[⟨1,js "a.txt",js "text/plain",3,3,3⟩,⟨2,js "b.txt",js "text/plain",3,3,3⟩],by decide⟩,.empty,
    fun key => if key = .upload 1 ∨ key = .upload 2 then some [97,98,99] else none,[]⟩
  running := []

theorem twinUploads_staged : Staged sampleSha256 twinUploads := by
  refine ⟨fun task htask => absurd htask List.not_mem_nil,fun row hrow _ => ?_,fun row hrow => absurd hrow List.not_mem_nil⟩
  rcases List.mem_cons.mp hrow with rfl | hrow
  · rfl
  · rw [List.mem_singleton.mp hrow]
    rfl

structure FinaliseView where
  idle : Bool
  rows : List UploadRow
  staged : Option Bytes
  deriving DecidableEq

def finaliseView (s : UploadTasks) : FinaliseView :=
  ⟨s.isIdle,s.shared.uploads.rows,s.shared.objects (.upload 2)⟩

/-- The second upload is a duplicate by then, and the DELETE of its row fails. -/
def duplicateActions : List (TaskAction Nat Fault) :=
  [.call 1,.exec 0 quiet,.exec 0 quiet,.exec 0 quiet,.exec 0 quiet,.exec 0 quiet,.exec 0 quiet,.exec 0 quiet,
    .call 2,.exec 1 quiet,.exec 1 quiet,.exec 1 quiet,.exec 1 ⟨true⟩]

theorem finalise_retryable_duplicate :
    ∃ s, Run (finaliseStep sampleSha256) (Guarded sampleSha256) twinUploads s ∧ s.Idle ∧
      ∃ row ∈ s.shared.uploads.rows, row.id = 2 ∧ Retryable sampleSha256 s.shared row := by
  have htrace : (runActions (finaliseStep sampleSha256) (Guarded sampleSha256) twinUploads duplicateActions).map finaliseView =
      some ⟨true,[⟨2,js "b.txt",js "text/plain",3,3,3⟩],some [97,98,99]⟩ := by
    decide +kernel
  obtain ⟨s,hs,hview⟩ := Option.map_eq_some_iff.mp htrace
  have hrun := Run.of_actions hs
  have hidle := Tasks.idle_of_isIdle (congrArg FinaliseView.idle hview)
  have hrows : s.shared.uploads.rows = [⟨2,js "b.txt",js "text/plain",3,3,3⟩] := congrArg FinaliseView.rows hview
  have hrow : ⟨2,js "b.txt",js "text/plain",3,3,3⟩ ∈ s.shared.uploads.rows := hrows ▸ List.mem_cons_self
  exact ⟨s,hrun,hidle,_,hrow,rfl,(finalise_retryable sampleSha256 twinUploads_staged hrun).1 hidle _ hrow rfl⟩

/-- Both calls look for a duplicate before either inserts. The second INSERT meets the
unique constraint after the staged object is gone. -/
def racingActions : List (TaskAction Nat Fault) :=
  [.call 1,.call 2,.exec 0 quiet,.exec 0 quiet,.exec 0 quiet,.exec 1 quiet,.exec 1 quiet,.exec 1 quiet,
    .exec 0 quiet,.exec 0 quiet,.exec 0 quiet,.exec 0 quiet,.exec 1 quiet,.exec 1 quiet,.exec 1 quiet]

theorem racing_twin_lost :
    ∃ s, Run (finaliseStep sampleSha256) (fun _ => NoFault) twinUploads s ∧ s.Idle ∧
      ∃ row ∈ s.shared.uploads.rows, row.Complete ∧ s.shared.objects row.storageKey = none := by
  have htrace : (runActions (finaliseStep sampleSha256) (fun _ => NoFault) twinUploads racingActions).map finaliseView =
      some ⟨true,[⟨2,js "b.txt",js "text/plain",3,3,3⟩],none⟩ := by
    decide +kernel
  obtain ⟨s,hs,hview⟩ := Option.map_eq_some_iff.mp htrace
  have hrows : s.shared.uploads.rows = [⟨2,js "b.txt",js "text/plain",3,3,3⟩] := congrArg FinaliseView.rows hview
  have hstaged : s.shared.objects (.upload 2) = none := congrArg FinaliseView.staged hview
  have hrow : ⟨2,js "b.txt",js "text/plain",3,3,3⟩ ∈ s.shared.uploads.rows := hrows ▸ List.mem_cons_self
  exact ⟨s,Run.of_actions hs,Tasks.idle_of_isIdle (congrArg FinaliseView.idle hview),_,hrow,rfl,hstaged⟩

section Removal
variable {id : Nat} {instr : UploadInstr} {rest more new : List UploadInstr} {fault : Fault} {a : TaskAction Nat Fault}

/-- What a call does between the removal of the staged object and the end of the DELETE of its row. -/
def UploadInstr.afterRemoval : UploadInstr → Bool
  | .insertAttachment _ _ | .deleteUpload _ (some _) => true
  | _ => false

/-- Nothing fails between the removal of a staged object and the DELETE of its row. -/
def Steady (sha256 : Bytes → JsString) (s : UploadTasks) : TaskAction Nat Fault → Prop
  | .call _ => True
  | .exec i fault => ∀ instr ∈ s.instr (.exec i fault : TaskAction Nat Fault), instr.afterRemoval = true →
      ¬instr.Fails sha256 s.shared fault

/-- The row is gone, or staged, or a call has removed its staged object and is about to delete it. -/
def Secure (s : UploadTasks) (id : Nat) : Prop :=
  s.shared.uploads.lookup id = none ∨ (s.shared.objects (.upload id)).isSome = true ∨
    ∃ task ∈ s.running, ∃ instr ∈ task.head?, instr.afterRemoval = true ∧ instr.held = some id

/-- The bytes that a call holds are those of a secure upload, until the call itself has removed the staged object. -/
def HoldsSecure (s : UploadTasks) (task : List UploadInstr) : Prop :=
  ∀ instr ∈ task.head?, ∀ id ∈ instr.held, instr.afterRemoval = false → Secure s id

theorem Shape.carries (h : Shape sha256 shared (instr :: rest)) (hafter : instr.afterRemoval = true) (hheld : instr.held = some id) :
    (instr :: rest).filter (carries id) ≠ [] := by
  generalize hcall : instr :: rest = task at h
  cases h with
  | insertAttachment u h =>
    cases hcall
    simpa [Attachments.carries,promotion] using Option.some.inj hheld
  | deleteUpload u result =>
    cases hcall
    simpa [Attachments.carries] using Option.some.inj hheld
  | deleteDuplicate u result =>
    cases hcall
    cases hafter
  | done => cases hcall
  | _ =>
    cases hcall
    cases hafter

theorem Secure.rescued (h : Secure s id) (hinv : FinaliseInv sha256 s) (hi : s.running[i]? = some (instr :: rest))
    (hafter : instr.afterRemoval = false) : Rescued s i id := by
  refine h.imp_right (Or.imp_right ?_)
  rintro ⟨task,htask,other,hother,hremoved,hheld⟩
  obtain ⟨left,rfl⟩ : ∃ left, task = other :: left := List.head?_eq_some_iff.mp hother
  have hcarries := (hinv.tasks _ htask).carries hremoved hheld
  obtain ⟨j,hj⟩ := List.mem_iff_getElem?.mp htask
  have hne : i ≠ j := by
    rintro rfl
    cases hi.symm.trans hj
    simp [hafter] at hremoved
  have hstays : (s.running.set i [])[j]? = some (other :: left) := by rw [List.getElem?_set_ne hne,hj]
  intro hnil
  rw [Tasks.inFlight,List.filter_flatten,List.flatten_eq_nil_iff] at hnil
  exact hcarries (hnil _ (List.mem_map_of_mem (List.mem_of_getElem? hstays)))

/-- What a step of one call leaves secure. -/
theorem Secure.advance (h : Secure s id) (hi : s.running[i]? = some (instr :: rest))
    (hgone : s.shared.uploads.lookup id = none → shared.uploads.lookup id = none)
    (hstaged : (s.shared.objects (.upload id)).isSome = true → Secure ⟨shared,s.running.set i new⟩ id)
    (hself : instr.afterRemoval = true → instr.held = some id → Secure ⟨shared,s.running.set i new⟩ id) :
    Secure ⟨shared,s.running.set i new⟩ id := by
  rcases h with hnone | hstill | ⟨task,htask,other,hother,hremoved,hheld⟩
  · exact .inl (hgone hnone)
  · exact hstaged hstill
  · obtain ⟨j,hj⟩ := List.mem_iff_getElem?.mp htask
    by_cases hij : i = j
    · subst hij
      cases hi.symm.trans hj
      cases hother
      exact hself hremoved hheld
    · exact .inr (.inr ⟨task,List.mem_of_getElem? (by rw [List.getElem?_set_ne hij,hj]),other,hother,hremoved,hheld⟩)

/-- A call that holds the bytes of a row whose staged object it has removed. -/
theorem secure_self {next : UploadInstr} (hi : s.running[i]? = some (instr :: rest)) (hafter : next.afterRemoval = true)
    (hheld : next.held = some id) :
    Secure ⟨shared,s.running.set i (next :: new)⟩ id :=
  .inr (.inr ⟨_,List.mem_of_getElem? (List.getElem?_set_self (List.getElem?_eq_some_iff.mp hi).1),next,rfl,hafter,hheld⟩)

/-- The staged objects stay where no call removes one. -/
theorem Secure.unstaged (h : Secure s id) (hi : s.running[i]? = some (instr :: rest))
    (hgone : s.shared.uploads.lookup id = none → shared.uploads.lookup id = none)
    (hobjects : ∀ id, shared.objects (.upload id) = s.shared.objects (.upload id))
    (hself : instr.afterRemoval = true → instr.held = some id → Secure ⟨shared,s.running.set i new⟩ id) :
    Secure ⟨shared,s.running.set i new⟩ id :=
  h.advance hi hgone (fun hstaged => .inr (.inl (by rw [hobjects]; exact hstaged))) hself

theorem Secure.removed {u : UploadRow} {result : Option UploadEvent} (h : Secure s id)
    (hi : s.running[i]? = some (.removeStaged u result :: rest))
    (hself : u.id = id → Secure ⟨(s.shared.setObject u.storageKey none).answer result,s.running.set i rest⟩ id) :
    Secure ⟨(s.shared.setObject u.storageKey none).answer result,s.running.set i rest⟩ id := by
  by_cases hid : u.id = id
  · exact hself hid
  · refine h.advance hi (fun hnone => hnone) (fun hstaged => .inr (.inl ?_)) nofun
    have hkey : StorageKey.upload id ≠ u.storageKey := fun heq => hid (StorageKey.upload.inj heq).symm
    exact (congrArg Option.isSome (if_neg hkey)).trans hstaged

theorem secure_run (hinv : FinaliseInv sha256 s) (hi : s.running[i]? = some (instr :: rest)) (hholds : HoldsSecure s (instr :: rest))
    (hrun : instr.run sha256 s.shared = some (shared,more)) :
    (∀ id, Secure s id → Secure ⟨shared,s.running.set i (more ++ rest)⟩ id) ∧
    HoldsSecure ⟨shared,s.running.set i (more ++ rest)⟩ (more ++ rest) := by
  have hshape := hinv.tasks _ (List.mem_of_getElem? hi)
  have hlater := run_later hrun
  generalize hcall : instr :: rest = task at hshape
  cases hshape with
  | done => cases hcall
  | selectComplete id =>
    cases hcall
    obtain ⟨u,-,-,rfl,rfl⟩ := run_selectComplete hrun
    refine ⟨fun id h => h.unstaged hi (hlater.gone id) (fun _ => rfl) nofun,?_⟩
    rintro next ⟨⟩ id ⟨⟩
  | streamStaged u =>
    cases hcall
    obtain ⟨body,hbody,rfl,rfl⟩ := run_streamStaged hrun
    refine ⟨fun id h => h.unstaged hi (hlater.gone id) (fun _ => rfl) nofun,?_⟩
    rintro next ⟨⟩ id ⟨⟩ -
    exact .inr (.inl (by rw [show s.shared.objects (.upload u.id) = some body from hbody]; rfl))
  | selectExisting u body =>
    cases hcall
    have hstays : ∀ new id, Secure s id → Secure ⟨s.shared,s.running.set i new⟩ id :=
      fun new id h => h.unstaged hi (fun hnone => hnone) (fun _ => rfl) nofun
    have hsecure := hholds _ rfl u.id rfl rfl
    obtain ⟨rfl,rfl | rfl⟩ := run_selectExisting hrun <;>
    · refine ⟨hstays _,?_⟩
      rintro next ⟨⟩ id ⟨⟩ -
      exact hstays _ _ hsecure
  | putFinal u body =>
    cases hcall
    cases hrun
    refine ⟨fun id h => h.unstaged hi (hlater.gone id) (fun _ => by rw [UploadState.setObject_objects,if_neg (by simp)]) nofun,?_⟩
    rintro next ⟨⟩ id ⟨⟩
  | removeStaged u haddressed =>
    obtain ⟨heq,rfl⟩ := List.cons.inj hcall
    subst heq
    cases hrun
    refine ⟨fun id h => h.removed hi fun hid => secure_self hi rfl (congrArg some hid),?_⟩
    rintro next ⟨⟩ id - ⟨⟩
  | insertAttachment u haddressed =>
    cases hcall
    obtain ⟨-,hobjects,-,-,rfl⟩ := run_insertAttachment hrun
    refine ⟨fun id h => h.unstaged hi (hlater.gone id) (fun _ => congrFun hobjects _) fun _ hheld => secure_self hi rfl hheld,?_⟩
    rintro next ⟨⟩ id - ⟨⟩
  | deleteUpload u result =>
    cases hcall
    cases hrun
    refine ⟨fun id h => h.unstaged hi (hlater.gone id) (fun _ => rfl) fun _ hheld => .inl ?_,nofun⟩
    exact Option.some.inj hheld ▸ s.shared.lookup_deleteRow u.id
  | deleteDuplicate u result =>
    cases hcall
    cases hrun
    refine ⟨fun id h => h.unstaged hi (hlater.gone id) (fun _ => rfl) nofun,?_⟩
    rintro next ⟨⟩ id ⟨⟩
  | removeDuplicate result hgone =>
    cases hcall
    cases hrun
    exact ⟨fun id h => h.removed hi fun hid => .inl (hid ▸ hgone),nofun⟩

theorem failure_shared {s : UploadState} (instr : UploadInstr) :
    (instr.failure s).1.uploads = s.uploads ∧ (instr.failure s).1.objects = s.objects := by
  cases instr <;> exact ⟨rfl,rfl⟩

/-- A call goes on after a failure only where it could not remove a staged object, and then holds no bytes. -/
theorem holdsSecure_failure (h : Shape sha256 shared (instr :: rest)) : HoldsSecure t ((instr.failure shared).2.continuation rest) := by
  generalize hcall : instr :: rest = task at h
  cases h with
  | done => cases hcall
  | removeStaged u haddressed =>
    obtain ⟨heq,rfl⟩ := List.cons.inj hcall
    subst heq
    rintro next ⟨⟩ id - ⟨⟩
  | _ =>
    cases hcall
    exact nofun

/-- While nothing fails between a removal and its DELETE, a call fails only where the upload survives it. -/
theorem steady_step (hinv : FinaliseInv sha256 s) (hholds : ∀ task ∈ s.running, HoldsSecure s task) (hsteady : Steady sha256 s a)
    (hstep : finaliseStep sha256 s a = some t) : Guarded sha256 s a ∧ ∀ task ∈ t.running, HoldsSecure t task := by
  have hmono {shared : UploadState} {i : Nat} {new : List UploadInstr}
      (hsecure : ∀ id, Secure s id → Secure ⟨shared,s.running.set i new⟩ id) (hnew : HoldsSecure ⟨shared,s.running.set i new⟩ new) :
      ∀ task ∈ s.running.set i new, HoldsSecure ⟨shared,s.running.set i new⟩ task :=
    Tasks.forall_set (s := s) (fun task htask instr hinstr id hid hafter => hsecure id (hholds task htask instr hinstr id hid hafter)) hnew
  rcases uploadStep_cases hstep with ⟨id,rfl,rfl⟩ | ⟨i,fault,instr,rest,rfl,hi,hcases⟩
  · refine ⟨trivial,fun task htask => ?_⟩
    rcases List.mem_append.mp htask with htask | htask
    · intro instr hinstr id hid hafter
      refine (hholds task htask instr hinstr id hid hafter).imp_right (Or.imp_right ?_)
      rintro ⟨other,hother,hfound⟩
      exact ⟨other,List.mem_append_left _ hother,hfound⟩
    · rw [List.mem_singleton.mp htask]
      rintro instr ⟨⟩ id ⟨⟩
  · have hmem := List.mem_of_getElem? hi
    have hgoes := hsteady instr (Tasks.instr_exec hi)
    refine ⟨fun other hother id hid hfails => ?_,?_⟩
    · have hnext : s.instr (.exec i fault : TaskAction Nat Fault) = some instr := Tasks.instr_exec hi
      cases hnext.symm.trans hother
      have hafter : instr.afterRemoval = false := Bool.eq_false_iff.mpr fun hremoved => hgoes hremoved hfails
      exact (hholds _ hmem instr rfl id hid hafter).rescued hinv hi hafter
    · rcases hcases with ⟨hfails,rfl⟩ | ⟨-,hthrow,rfl⟩ | ⟨shared,more,-,hrun,rfl⟩
      · have hafter : instr.afterRemoval = false := Bool.eq_false_iff.mpr fun hremoved => hgoes hremoved (fails_of_fault hfails)
        obtain ⟨huploads,hobjects⟩ := failure_shared (s := s.shared) instr
        refine hmono (fun id h =>
          h.unstaged hi (fun hnone => by rw [huploads]; exact hnone) (fun _ => congrFun hobjects _) (by simp [hafter])) ?_
        exact holdsSecure_failure (hinv.tasks _ hmem)
      · have hafter : instr.afterRemoval = false := by
          rw [Bool.eq_false_iff]
          intro hremoved
          cases hheld : instr.held with
          | none => cases instr <;> simp [UploadInstr.afterRemoval,UploadInstr.held] at hremoved hheld
          | some id => exact hgoes hremoved (fails_of_thrown hthrow hheld)
        exact hmono (fun id h => h.unstaged hi (fun hnone => hnone) (fun _ => rfl) (by simp [hafter])) nofun
      · obtain ⟨hsecure,hnew⟩ := secure_run hinv hi (hholds _ hmem) hrun
        exact hmono hsecure hnew

theorem guarded_of_steady {s₀ : UploadTasks} (hstaged : Staged sha256 s₀) (hrun : Run (finaliseStep sha256) (Steady sha256) s₀ s) :
    Run (finaliseStep sha256) (Guarded sha256) s₀ s := by
  have hall : FinaliseInv sha256 s ∧ (∀ task ∈ s.running, HoldsSecure s task) ∧ Run (finaliseStep sha256) (Guarded sha256) s₀ s := by
    induction hrun with
    | refl =>
      refine ⟨hstaged.finaliseInv,fun task htask => ?_,.refl s₀⟩
      rw [hstaged.idle task htask]
      exact nofun
    | tail a _ hsteady hstep ih =>
      obtain ⟨hinv,hholds,hguarded⟩ := ih
      obtain ⟨ha,hnext⟩ := steady_step hinv hholds hsteady hstep
      exact ⟨finaliseInv_step hinv ha hstep,hnext,hguarded.tail a ha hstep⟩
  exact hall.2.2

end Removal

end Invariant
end JustMail.Attachments
