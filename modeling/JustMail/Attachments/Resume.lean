import JustMail.Attachments.Append

/-! One client that sends a body chunk by chunk over an unreliable server, and asks
`getUpload` for the offset after every call that failed. -/
namespace JustMail.Attachments
open Foundation

section Client

/-- The server, what the call in progress has left to do, and the offset the client
resumes from. It has none after a call that failed. -/
structure Client where
  server : UploadState
  call : List UploadInstr
  offset : Option Nat

inductive ClientAction where
  | append (n : Nat)
  | finalise
  | getUpload (fault : Fault)
  | exec (fault : Fault)

variable (sha256 : Bytes → JsString) (id : Nat) (body : Bytes)

def offsetOf (s : UploadState) : Option Nat := (s.uploads.lookup id).map UploadRow.offsetBytes

/-- What the client knows after an instruction: the row that `appendChunk` returns has
the new offset, an exception takes it away. -/
def Client.learned (c : Client) (instr : UploadInstr) (server : UploadState) : Outcome UploadInstr → Option Nat
  | .throw => none
  | .next _ =>
    match instr with
    | .updateCounters _ _ => offsetOf id server
    | _ => c.offset

def clientStep (c : Client) : ClientAction → Option Client
  | .append n =>
    match c.call, c.offset with
    | [], some offset =>
      if offset < body.length ∧ 0 < n then
        some { c with call := appendBody ⟨id,offset,(body.drop offset).take n⟩ }
      else none
    | _, _ => none
  | .finalise =>
    match c.call, c.offset with
    | [], some _ => some { c with call := finaliseBody id }
    | _, _ => none
  | .getUpload fault =>
    match c.call with
    | [] => some { c with offset := if fault.fails then none else offsetOf id c.server }
    | _ :: _ => none
  | .exec fault =>
    match c.call with
    | [] => none
    | instr :: rest =>
      (execUpload sha256 c.server instr fault).map fun (server,outcome) =>
        ⟨server,outcome.continuation rest,c.learned id instr server outcome⟩

structure NewClient (c : Client) : Prop where
  idle : c.call = []
  offset : c.offset = some 0
  rows : ∃ row, c.server.uploads.lookup id = some row ∧ row.sizeBytes = body.length ∧ row.uploadedBytes = 0 ∧
    row.offsetBytes = 0 ∧ c.server.objects row.storageKey = none
  returned : c.server.returned = []

/-- The two accesses of `appendChunk` whose failure breaks the upload: the read of a
staged object that has bytes, and the counters' update. -/
def UploadInstr.Harmless (s : UploadState) : UploadInstr → Prop
  | .readStaged u _ => s.staged u.id = []
  | .updateCounters _ _ => False
  | _ => True

def HarmlessFaults (c : Client) : ClientAction → Prop
  | .exec fault => fault.fails = true → ∀ instr ∈ c.call.head?, instr.Harmless c.server
  | _ => True

instance (s : UploadState) : DecidablePred (UploadInstr.Harmless s) := fun instr =>
  match instr with
  | .readStaged u _ => inferInstanceAs (Decidable (s.staged u.id = []))
  | .updateCounters _ _ => inferInstanceAs (Decidable False)
  | .selectUpload _ _ _ | .putStaged _ _ _ | .selectComplete _ | .streamStaged _ | .selectExisting _ _ | .putFinal _ _ |
    .removeStaged _ _ | .insertAttachment _ _ | .deleteUpload _ _ => .isTrue trivial

instance (c : Client) : DecidablePred (HarmlessFaults c) := fun a =>
  match a with
  | .exec fault =>
    inferInstanceAs (Decidable (fault.fails = true → ∀ instr ∈ c.call.head?, instr.Harmless c.server))
  | .append _ | .finalise | .getUpload _ => .isTrue trivial

end Client

section Invariant
variable {sha256 : Bytes → JsString} {id : Nat} {body : Bytes} {s s' : UploadState} {u : UploadRow} {instr : UploadInstr}
variable {rest : List UploadInstr} {outcome : Outcome UploadInstr}

/-- The client's row, with counters that agree. -/
structure Current (id : Nat) (body : Bytes) (s : UploadState) (u : UploadRow) : Prop where
  lookup : s.uploads.lookup id = some u
  size : u.sizeBytes = body.length
  counters : u.offsetBytes = u.uploadedBytes
  fits : u.uploadedBytes ≤ body.length

/-- Between two calls the staged object is the body up to the offset. A call of
`finaliseUpload` that failed late may have removed it. -/
def Resting (id : Nat) (body : Bytes) (s : UploadState) : Prop :=
  ∀ u, s.uploads.lookup id = some u → Current id body s u ∧
    (s.staged id = body.take u.offsetBytes ∨ u.offsetBytes = body.length ∧ s.objects (.upload id) = none)

/-- Once the upload is stored, its attachment has the client's bytes. -/
def StoredIntact (sha256 : Bytes → JsString) (id : Nat) (body : Bytes) (s : UploadState) : Prop :=
  ∀ contentHash, .stored id contentHash ∈ s.returned → contentHash = sha256 body ∧
    (∃ u, attachmentOf sha256 u body ∈ s.attachments.rows) ∧ s.objects (.attachment (sha256 body)) = some body

structure Ready (id : Nat) (body : Bytes) (s : UploadState) (u : UploadRow) : Prop where
  resting : Resting id body s
  lookup : s.uploads.lookup id = some u
  complete : u.uploadedBytes = u.sizeBytes

/-- What holds at each step of the client's calls. -/
inductive Progress (sha256 : Bytes → JsString) (id : Nat) (body : Bytes) (s : UploadState) : List UploadInstr → Prop
  | idle (h : Resting id body s) : Progress sha256 id body s []
  | selectUpload {offset : Nat} {chunk : Bytes} (h : Resting id body s) (hoffset : offset < body.length)
    (hchunk : chunk <+: body.drop offset) : Progress sha256 id body s [.selectUpload id offset chunk]
  | readStaged {u : UploadRow} {chunk : Bytes} (h : Current id body s u) (hstaged : s.staged id = body.take u.offsetBytes)
    (hchunk : chunk <+: body.drop u.offsetBytes) : Progress sha256 id body s [.readStaged u chunk]
  | putStaged {u : UploadRow} {chunk : Bytes} (h : Current id body s u) (hstaged : s.staged id = body.take u.offsetBytes)
    (hchunk : chunk <+: body.drop u.offsetBytes) :
    Progress sha256 id body s [.putStaged u chunk (body.take u.offsetBytes ++ chunk)]
  | updateCounters {u : UploadRow} {chunk : Bytes} (h : Current id body s u) (hchunk : chunk <+: body.drop u.offsetBytes)
    (hstaged : s.staged id = body.take u.offsetBytes ++ chunk) : Progress sha256 id body s [.updateCounters u chunk]
  | selectComplete (h : Resting id body s) : Progress sha256 id body s [.selectComplete id]
  | streamStaged {u : UploadRow} (h : Ready id body s u) : Progress sha256 id body s [.streamStaged u]
  | selectExisting {u : UploadRow} (h : Ready id body s u) : Progress sha256 id body s [.selectExisting u body]
  | putFinal {u : UploadRow} (h : Ready id body s u) : Progress sha256 id body s (promotion sha256 u body)
  | removeStaged {u : UploadRow} (h : Ready id body s u) (hfinal : s.objects (.attachment (sha256 body)) = some body) :
    Progress sha256 id body s (promotion sha256 u body).tail
  | insertAttachment {u : UploadRow} (h : Ready id body s u) (hfinal : s.objects (.attachment (sha256 body)) = some body) :
    Progress sha256 id body s ((promotion sha256 u body).drop 2)
  | deleteUpload {u : UploadRow} (h : Ready id body s u) (hfinal : s.objects (.attachment (sha256 body)) = some body)
    (hrow : attachmentOf sha256 u body ∈ s.attachments.rows) : Progress sha256 id body s ((promotion sha256 u body).drop 3)
  | deleteDuplicate {u : UploadRow} (h : Ready id body s u) :
    Progress sha256 id body s [.deleteUpload u none,.removeStaged u (some (.deduplicated u.id (sha256 body)))]
  | removeDuplicate {u : UploadRow} (h : s.uploads.lookup id = none) :
    Progress sha256 id body s [.removeStaged u (some (.deduplicated u.id (sha256 body)))]

theorem Current.id_eq (h : Current id body s u) : u.id = id := Table.key_of_lookup h.lookup
theorem Ready.id_eq (h : Ready id body s u) : u.id = id := Table.key_of_lookup h.lookup

theorem Ready.offset (h : Ready id body s u) : u.offsetBytes = body.length := by
  obtain ⟨hcurrent,-⟩ := h.resting u h.lookup
  rw [hcurrent.counters,h.complete,hcurrent.size]

theorem Resting.congr (h : Resting id body s) (huploads : s'.uploads = s.uploads)
    (hobjects : s'.objects (.upload id) = s.objects (.upload id)) : Resting id body s' := by
  intro u hu
  rw [huploads] at hu
  obtain ⟨⟨hlookup,hsize,hcounters,hfits⟩,hstaged⟩ := h u hu
  refine ⟨⟨huploads ▸ hlookup,hsize,hcounters,hfits⟩,?_⟩
  rw [UploadState.staged,hobjects]
  exact hstaged

theorem Ready.congr (h : Ready id body s u) (huploads : s'.uploads = s.uploads)
    (hobjects : s'.objects (.upload id) = s.objects (.upload id)) : Ready id body s' u :=
  ⟨h.resting.congr huploads hobjects,huploads ▸ h.lookup,h.complete⟩

theorem Current.resting (h : Current id body s u) (hstaged : s.staged id = body.take u.offsetBytes) : Resting id body s := by
  intro r hr
  obtain rfl : u = r := Option.some.inj (h.lookup.symm.trans hr)
  exact ⟨h,.inl hstaged⟩

theorem Resting.of_gone (h : s.uploads.lookup id = none) : Resting id body s := by
  intro u hu
  simp [h] at hu

/-- A call that ends before its counters' update leaves the upload as it found it. -/
theorem Progress.resting {call : List UploadInstr} (h : Progress sha256 id body s call)
    (hcall : ∀ u chunk, call ≠ [.updateCounters u chunk]) : Resting id body s := by
  cases h with
  | idle h => exact h
  | selectUpload h _ _ => exact h
  | readStaged h hstaged _ => exact h.resting hstaged
  | putStaged h hstaged _ => exact h.resting hstaged
  | updateCounters _ _ _ => exact absurd rfl (hcall _ _)
  | selectComplete h => exact h
  | streamStaged h => exact h.resting
  | selectExisting h => exact h.resting
  | putFinal h => exact h.resting
  | removeStaged h _ => exact h.resting
  | insertAttachment h _ => exact h.resting
  | deleteUpload h _ _ => exact h.resting
  | deleteDuplicate h => exact h.resting
  | removeDuplicate h => exact .of_gone h

theorem take_append_chunk {offset : Nat} {chunk : Bytes} (h : chunk <+: body.drop offset) :
    body.take offset ++ chunk = body.take (offset + chunk.length) := by
  rw [List.take_add,← List.prefix_iff_eq_take.mp h]

theorem Current.count {chunk : Bytes} (h : Current id body s u) (hchunk : chunk <+: body.drop u.offsetBytes)
    (hstaged : s.staged id = body.take u.offsetBytes ++ chunk) (result : Option UploadEvent) :
    Resting id body ((s.count id chunk.length).answer result) := by
  have hlength := hchunk.length_le
  have hfits := h.fits
  have hcounters := h.counters
  rw [List.length_drop] at hlength
  refine Current.resting (u := countBytes chunk.length u) ⟨s.lookup_count h.lookup,h.size,?_,?_⟩ ?_
  · simp only [countBytes,hcounters]
  · change u.uploadedBytes + chunk.length ≤ body.length
    omega
  · exact hstaged.trans (take_append_chunk hchunk)

theorem Ready.remove (h : Ready id body s u) (result : Option UploadEvent) :
    Ready id body ((s.setObject u.storageKey none).answer result) u := by
  refine ⟨fun r hr => ?_,h.lookup,h.complete⟩
  obtain rfl : u = r := Option.some.inj (h.lookup.symm.trans hr)
  obtain ⟨⟨hlookup,hsize,hcounters,hfits⟩,-⟩ := h.resting u h.lookup
  refine ⟨⟨hlookup,hsize,hcounters,hfits⟩,.inr ⟨h.offset,?_⟩⟩
  rw [UploadState.answer_objects,UploadState.setObject_objects,UploadRow.storageKey,h.id_eq,if_pos rfl]

theorem progress_run {rest more : List UploadInstr} (h : Progress sha256 id body s (instr :: rest))
    (hrun : instr.run sha256 s = some (s',more)) : Progress sha256 id body s' (more ++ rest) := by
  generalize hcall : instr :: rest = call at h
  cases h with
  | idle h => simp at hcall
  | selectUpload h hoffset hchunk =>
    cases hcall
    obtain ⟨u,hu,rfl,-,rfl,rfl⟩ := run_selectUpload hrun
    obtain ⟨hcurrent,hstaged | ⟨hfull,-⟩⟩ := h u hu
    · exact .readStaged hcurrent hstaged hchunk
    · exact absurd hfull (Nat.ne_of_lt hoffset)
  | readStaged h hstaged hchunk =>
    cases hcall
    cases hrun
    rw [h.id_eq,hstaged]
    exact .putStaged h hstaged hchunk
  | putStaged h hstaged hchunk =>
    cases hcall
    cases hrun
    refine .updateCounters ⟨h.lookup,h.size,h.counters,h.fits⟩ hchunk ?_
    rw [UploadRow.storageKey,h.id_eq,UploadState.setObject_staged]
  | updateCounters h hchunk hstaged =>
    cases hcall
    obtain ⟨rfl,rfl⟩ := run_updateCounters hrun
    rw [h.id_eq]
    exact .idle (h.count hchunk hstaged _)
  | selectComplete h =>
    cases hcall
    obtain ⟨u,hu,hcomplete,rfl,rfl⟩ := run_selectComplete hrun
    exact .streamStaged ⟨h,hu,hcomplete⟩
  | streamStaged h =>
    cases hcall
    obtain ⟨staged,hobject,rfl,rfl⟩ := run_streamStaged hrun
    rw [UploadRow.storageKey,h.id_eq] at hobject
    obtain ⟨-,hstaged | ⟨-,hgone⟩⟩ := h.resting _ h.lookup
    · rw [h.offset,List.take_length,UploadState.staged,hobject] at hstaged
      obtain rfl : staged = body := hstaged
      exact .selectExisting h
    · simp [hgone] at hobject
  | selectExisting h =>
    cases hcall
    obtain ⟨rfl,rfl | rfl⟩ := run_selectExisting hrun
    · exact .deleteDuplicate h
    · exact .putFinal h
  | putFinal h =>
    cases hcall
    cases hrun
    refine .removeStaged (h.congr rfl ?_) ?_
    · rw [UploadState.setObject_objects,if_neg (by simp)]
    · rw [UploadState.setObject_objects,if_pos rfl]
  | removeStaged h hfinal =>
    cases hcall
    cases hrun
    refine .insertAttachment (h.remove none) ?_
    · rw [UploadState.answer_objects,UploadState.setObject_objects,if_neg (by simp [UploadRow.storageKey])]
      exact hfinal
  | insertAttachment h hfinal =>
    cases hcall
    obtain ⟨huploads,hobjects,-,hrows,rfl⟩ := run_insertAttachment hrun
    exact .deleteUpload (h.congr huploads (congrFun hobjects _)) ((congrFun hobjects _).trans hfinal) ((hrows _).mpr (.inr rfl))
  | deleteUpload h hfinal hrow =>
    cases hcall
    cases hrun
    exact .idle (.of_gone (by simpa [h.id_eq] using s.lookup_deleteRow id))
  | deleteDuplicate h =>
    cases hcall
    cases hrun
    exact .removeDuplicate (by simpa [h.id_eq] using s.lookup_deleteRow id)
  | removeDuplicate h =>
    cases hcall
    cases hrun
    exact .idle (.of_gone h)

theorem progress_failure
    (h : Progress sha256 id body s (instr :: rest)) (hharmless : instr.Harmless s)
    (hfailure : instr.failure s = (s',outcome)) : Progress sha256 id body s' (outcome.continuation rest) := by
  have hrest : instr.failure s = (s,.throw) → Progress sha256 id body s' (outcome.continuation rest) := by
    intro hthrow
    obtain ⟨rfl,rfl⟩ := Prod.mk.inj (hthrow.symm.trans hfailure)
    refine .idle (h.resting fun u chunk hcall => ?_)
    cases hcall
    exact hharmless
  cases instr with
  | readStaged u chunk =>
    cases hfailure
    cases h with
    | readStaged h hstaged hchunk =>
      have hempty : s.staged id = [] := h.id_eq ▸ hharmless
      have hput : Progress sha256 id body s [.putStaged u chunk (body.take u.offsetBytes ++ chunk)] :=
        .putStaged h hstaged hchunk
      rw [← hstaged,hempty] at hput
      exact hput
  | removeStaged u result =>
    cases hfailure
    generalize hcall : UploadInstr.removeStaged u result :: rest = call at h
    cases h with
    | removeStaged h hfinal =>
      obtain ⟨heq,rfl⟩ := List.cons.inj hcall
      cases heq
      exact .insertAttachment (h.congr rfl rfl) hfinal
    | removeDuplicate h =>
      obtain ⟨heq,rfl⟩ := List.cons.inj hcall
      exact .idle (.of_gone h)
    | _ => simp [promotion] at hcall
  | _ => exact hrest rfl

theorem progress_exec {fault : Fault}
    (h : Progress sha256 id body s (instr :: rest)) (hharmless : fault.fails = true → instr.Harmless s)
    (hexec : execUpload sha256 s instr fault = some (s',outcome)) :
    Progress sha256 id body s' (outcome.continuation rest) := by
  rcases execUpload_cases hexec with ⟨hfails,hfailure⟩ | ⟨-,hthrow,rfl,rfl⟩ | ⟨more,-,hrun,rfl⟩
  · exact progress_failure h (hharmless hfails) hfailure
  · refine .idle (h.resting fun u chunk hcall => ?_)
    cases hcall
    cases h with
    | updateCounters h _ _ => simp [UploadInstr.run,h.id_eq,h.lookup] at hthrow
  · exact progress_run h hrun

/-- The calls return `stored` only with the last instruction of a promotion. -/
theorem Progress.result {contentHash : JsString}
    (h : Progress sha256 id body s (instr :: rest)) (hresult : instr.result = some (.stored id contentHash)) :
    contentHash = sha256 body ∧ (∃ u, instr = .deleteUpload u (some (.stored id contentHash)) ∧
      attachmentOf sha256 u body ∈ s.attachments.rows) ∧ s.objects (.attachment (sha256 body)) = some body := by
  generalize hcall : instr :: rest = call at h
  cases h with
  | idle _ => simp at hcall
  | deleteUpload h hfinal hrow =>
    cases hcall
    cases hresult
    exact ⟨rfl,⟨_,by rw [h.id_eq],hrow⟩,hfinal⟩
  | _ =>
    cases hcall
    simp [UploadInstr.result] at hresult

/-- The only content the calls put under the attachment's key is the body. -/
theorem Progress.write {key : JsString} {content : Option Bytes}
    (h : Progress sha256 id body s (instr :: rest)) (hwrite : instr.write sha256 = some (.attachment key,content)) :
    content = some body := by
  generalize hcall : instr :: rest = call at h
  cases h with
  | idle _ => simp at hcall
  | putFinal h =>
    cases hcall
    exact (Prod.mk.inj (Option.some.inj hwrite)).2.symm
  | _ =>
    cases hcall
    simp [UploadInstr.write,UploadRow.storageKey] at hwrite

theorem storedIntact_exec {fault : Fault}
    (hstored : StoredIntact sha256 id body s) (h : Progress sha256 id body s (instr :: rest))
    (hexec : execUpload sha256 s instr fault = some (s',outcome)) : StoredIntact sha256 id body s' := by
  intro contentHash hmem
  rcases execUpload_cases hexec with ⟨-,hfailure⟩ | ⟨-,-,rfl,-⟩ | ⟨more,-,hrun,-⟩
  · obtain ⟨result,hresult,rfl⟩ := failure_effect hfailure
    rcases List.mem_append.mp hmem with hmem | hmem
    · exact hstored contentHash hmem
    · obtain rfl := Option.mem_toList.mp hmem
      rcases hresult with hnone | ⟨u,rfl⟩
      · simp at hnone
      · obtain ⟨-,⟨u',hinstr,-⟩,-⟩ := h.result rfl
        simp at hinstr
  · exact hstored contentHash hmem
  · have heffect := run_effect hrun
    have hobject : s.objects (.attachment (sha256 body)) = some body → s'.objects (.attachment (sha256 body)) = some body := by
      intro hbody
      rw [heffect.objects]
      split
      · rename_i key content hwrite
        split
        · rename_i hkey
          exact h.write (hkey ▸ hwrite)
        · exact hbody
      · exact hbody
    rw [heffect.returned] at hmem
    rcases List.mem_append.mp hmem with hmem | hmem
    · obtain ⟨hhash,⟨u,hrow⟩,hbody⟩ := hstored contentHash hmem
      exact ⟨hhash,⟨u,(heffect.attachments _).mpr (.inl hrow)⟩,hobject hbody⟩
    · obtain ⟨hhash,⟨u,-,hrow⟩,hbody⟩ := h.result (Option.mem_toList.mp hmem)
      exact ⟨hhash,⟨u,(heffect.attachments _).mpr (.inl hrow)⟩,hobject hbody⟩

structure ClientInv (sha256 : Bytes → JsString) (id : Nat) (body : Bytes) (c : Client) : Prop where
  progress : Progress sha256 id body c.server c.call
  stored : StoredIntact sha256 id body c.server

theorem clientInv_step {c c' : Client} {a : ClientAction} (h : ClientInv sha256 id body c) (hharmless : HarmlessFaults c a)
    (hstep : clientStep sha256 id body c a = some c') : ClientInv sha256 id body c' := by
  cases a with
  | append n =>
    simp only [clientStep] at hstep
    split at hstep
    · rename_i offset hcall hoffset
      obtain ⟨⟨hlt,-⟩,hc⟩ := Option.ite_none_right_eq_some.mp hstep
      cases hc
      have hresting := h.progress.resting (by simp [hcall])
      exact ⟨.selectUpload hresting hlt (List.take_prefix n _),h.stored⟩
    · simp at hstep
  | finalise =>
    simp only [clientStep] at hstep
    split at hstep
    · rename_i hcall hoffset
      cases hstep
      exact ⟨.selectComplete (h.progress.resting (by simp [hcall])),h.stored⟩
    · simp at hstep
  | getUpload fault =>
    simp only [clientStep] at hstep
    split at hstep
    · cases hstep
      exact ⟨h.progress,h.stored⟩
    · simp at hstep
  | exec fault =>
    simp only [clientStep] at hstep
    split at hstep
    · simp at hstep
    · rename_i instr rest hcall
      obtain ⟨⟨server,outcome⟩,hexec,rfl⟩ := Option.map_eq_some_iff.mp hstep
      have hprogress : Progress sha256 id body c.server (instr :: rest) := hcall ▸ h.progress
      have hfault : fault.fails = true → instr.Harmless c.server := fun hfails => hharmless hfails instr (by rw [hcall]; rfl)
      exact ⟨progress_exec hprogress hfault hexec,storedIntact_exec h.stored hprogress hexec⟩

theorem NewClient.clientInv {c : Client} (h : NewClient id body c) : ClientInv sha256 id body c := by
  obtain ⟨row,hrow,hsize,huploaded,hoffset,hobject⟩ := h.rows
  refine ⟨?_,fun contentHash hmem => ?_⟩
  · rw [h.idle]
    refine .idle (Current.resting (u := row) ⟨hrow,hsize,hoffset.trans huploaded.symm,huploaded.trans_le (Nat.zero_le _)⟩ ?_)
    rw [UploadRow.storageKey,Table.key_of_lookup hrow] at hobject
    rw [UploadState.staged,hobject,hoffset]
    rfl
  · rw [h.returned] at hmem
    exact absurd hmem List.not_mem_nil

/-- As long as no read of staged bytes fails and no counters' update, an upload that is
stored has the bytes that the client sent. -/
theorem stored_body_identical (sha256 : Bytes → JsString) (id : Nat) (body : Bytes) {c₀ c : Client}
    (hnew : NewClient id body c₀) (hrun : Run (clientStep sha256 id body) HarmlessFaults c₀ c) {contentHash : JsString}
    (hstored : .stored id contentHash ∈ c.server.returned) :
    ∃ row ∈ c.server.attachments.rows, row.contentHash = contentHash ∧ row.sizeBytes = body.length ∧
      c.server.objects row.storageKey = some body := by
  have hinv := hrun.invariant (fun _ _ _ h ha hstep => clientInv_step h ha hstep) hnew.clientInv
  obtain ⟨rfl,⟨u,hrow⟩,hbody⟩ := hinv.stored contentHash hstored
  exact ⟨attachmentOf sha256 u body,hrow,rfl,rfl,hbody⟩

def newClient : Client := ⟨newUpload.shared,[],some 0⟩

theorem newClient_new : NewClient 1 [97,98,99] newClient :=
  ⟨rfl,rfl,⟨⟨1,js "a.txt",js "text/plain",3,0,0⟩,by decide,rfl,rfl,rfl,rfl⟩,rfl⟩

structure ClientView where
  returned : List UploadEvent
  rows : List AttachmentRow
  final : Option Bytes
  deriving DecidableEq

def clientView (contentHash : JsString) (c : Client) : ClientView :=
  ⟨c.server.returned,c.server.attachments.rows,c.server.objects (.attachment contentHash)⟩

def broken : Fault := ⟨true⟩

/-- The put of the second chunk fails once, and `finaliseUpload` fails once to remove
the staged object. -/
def retryActions : List ClientAction :=
  [.append 1,.exec quiet,.exec broken,.exec quiet,.exec quiet,
    .append 2,.exec quiet,.exec quiet,.exec broken,.getUpload broken,.getUpload quiet,
    .append 5,.exec quiet,.exec quiet,.exec quiet,.exec quiet,
    .finalise,.exec quiet,.exec quiet,.exec quiet,.exec quiet,.exec broken,.exec quiet,.exec quiet]

theorem stored_body_after_retry :
    ∃ c, Run (clientStep sampleSha256 1 [97,98,99]) HarmlessFaults newClient c ∧
      ∃ row ∈ c.server.attachments.rows, row.contentHash = sampleSha256 [97,98,99] ∧ row.sizeBytes = 3 ∧
        c.server.objects row.storageKey = some [97,98,99] := by
  have htrace : (runActions (clientStep sampleSha256 1 [97,98,99]) HarmlessFaults newClient retryActions).map
      (clientView (sampleSha256 [97,98,99])) =
      some ⟨[.appended 1 0 [97],.appended 1 1 [98,99],.stored 1 (sampleSha256 [97,98,99])],
        [⟨sampleSha256 [97,98,99],js "a.txt",js "text/plain",3,.attachment (sampleSha256 [97,98,99])⟩],some [97,98,99]⟩ := by
    decide +kernel
  obtain ⟨c,hc,hview⟩ := Option.map_eq_some_iff.mp htrace
  have hrun := Run.of_actions hc
  have hreturned : c.server.returned = _ := congrArg ClientView.returned hview
  have hstored : .stored 1 (sampleSha256 [97,98,99]) ∈ c.server.returned := by
    rw [hreturned]
    exact List.mem_of_getLast? rfl
  exact ⟨c,hrun,stored_body_identical sampleSha256 1 [97,98,99] newClient_new hrun hstored⟩

/-- The read of the staged chunk fails, the next chunk replaces it and the counters are
complete nonetheless. -/
def lossyActions : List ClientAction :=
  [.append 1,.exec quiet,.exec quiet,.exec quiet,.exec quiet,
    .append 2,.exec quiet,.exec broken,.exec quiet,.exec quiet,
    .finalise,.exec quiet,.exec quiet,.exec quiet,.exec quiet,.exec quiet,.exec quiet,.exec quiet]

theorem failed_read_drops_chunk :
    ∃ c, Run (clientStep sampleSha256 1 [97,98,99]) (fun _ _ => True) newClient c ∧
      ∃ contentHash, .stored 1 contentHash ∈ c.server.returned ∧
      ∀ row ∈ c.server.attachments.rows, row.contentHash = contentHash →
        row.sizeBytes ≠ 3 ∧ c.server.objects row.storageKey ≠ some [97,98,99] := by
  have htrace : (runActions (clientStep sampleSha256 1 [97,98,99]) (fun _ _ => True) newClient lossyActions).map
      (clientView (sampleSha256 [98,99])) =
      some ⟨[.appended 1 0 [97],.appended 1 1 [98,99],.stored 1 (sampleSha256 [98,99])],
        [⟨sampleSha256 [98,99],js "a.txt",js "text/plain",2,.attachment (sampleSha256 [98,99])⟩],some [98,99]⟩ := by
    decide +kernel
  obtain ⟨c,hc,hview⟩ := Option.map_eq_some_iff.mp htrace
  have hreturned : c.server.returned = _ := congrArg ClientView.returned hview
  have hrows : c.server.attachments.rows = _ := congrArg ClientView.rows hview
  have hfinal : c.server.objects (.attachment (sampleSha256 [98,99])) = some [98,99] := congrArg ClientView.final hview
  have hstored : .stored 1 (sampleSha256 [98,99]) ∈ c.server.returned := by
    rw [hreturned]
    exact List.mem_of_getLast? rfl
  refine ⟨c,Run.of_actions hc,sampleSha256 [98,99],hstored,fun row hrow _ => ?_⟩
  rw [hrows] at hrow
  rw [List.mem_singleton.mp hrow,hfinal]
  simp

end Invariant
end JustMail.Attachments
