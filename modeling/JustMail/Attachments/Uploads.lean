import JustMail.Foundation.CodeUnits
import JustMail.Foundation.KeyedTable
import JustMail.Foundation.Tasks

/-! Resumable uploads of one organisation: `appendChunk` and `finaliseUpload` of
`AttachmentsService`, cut into their queries and storage accesses. -/
namespace JustMail.Attachments
open Foundation

section State

abbrev Bytes := List UInt8

/-- The keys `uploads/<id>` and `attachments/<hash>` of the storage adapter. -/
inductive StorageKey where
  | upload (id : Nat)
  | attachment (contentHash : JsString)
  deriving DecidableEq

/-- A row of `uploads`. Its storage key is `uploads/<id>`. -/
structure UploadRow where
  id : Nat
  filename : JsString
  mime : JsString
  sizeBytes : Nat
  uploadedBytes : Nat
  offsetBytes : Nat
  deriving DecidableEq

def UploadRow.storageKey (u : UploadRow) : StorageKey := .upload u.id

/-- A row of `attachments`; `UNIQUE (org_id, content_hash)` makes the hash its key. -/
structure AttachmentRow where
  contentHash : JsString
  filename : JsString
  mime : JsString
  sizeBytes : Nat
  storageKey : StorageKey
  deriving DecidableEq

/-- What calls have returned. -/
inductive UploadEvent where
  | appended (id offset : Nat) (chunk : Bytes)
  | stored (id : Nat) (contentHash : JsString)
  | deduplicated (id : Nat) (contentHash : JsString)
  deriving DecidableEq

structure UploadState where
  uploads : Table UploadRow.id
  attachments : Table AttachmentRow.contentHash
  objects : StorageKey → Option Bytes
  returned : List UploadEvent

def countBytes (n : Nat) (u : UploadRow) : UploadRow :=
  { u with uploadedBytes := u.uploadedBytes + n, offsetBytes := u.offsetBytes + n }

namespace UploadState
variable {row : UploadRow}

def staged (s : UploadState) (id : Nat) : Bytes := (s.objects (.upload id)).getD []

/-- `storage.put`, or `storage.remove` where there is no content. -/
def setObject (s : UploadState) (key : StorageKey) (content : Option Bytes) : UploadState :=
  { s with objects k := if k = key then content else s.objects k }

def answer (s : UploadState) (result : Option UploadEvent) : UploadState :=
  { s with returned := s.returned ++ result.toList }

/-- Both counters of the row grow. -/
def count (s : UploadState) (id n : Nat) : UploadState :=
  { s with uploads := s.uploads.updateWhere (fun r => r.id = id) (countBytes n) (fun _ => rfl) }

def deleteRow (s : UploadState) (id : Nat) : UploadState :=
  { s with uploads := s.uploads.deleteWhere (fun r => r.id = id) }

variable (s : UploadState)

@[simp] theorem setObject_uploads (key : StorageKey) (content : Option Bytes) : (s.setObject key content).uploads = s.uploads := rfl
@[simp] theorem setObject_attachments (key : StorageKey) (content : Option Bytes) :
    (s.setObject key content).attachments = s.attachments := rfl
@[simp] theorem setObject_returned (key : StorageKey) (content : Option Bytes) :
    (s.setObject key content).returned = s.returned := rfl
@[simp] theorem answer_uploads (result : Option UploadEvent) : (s.answer result).uploads = s.uploads := rfl
@[simp] theorem answer_attachments (result : Option UploadEvent) : (s.answer result).attachments = s.attachments := rfl
@[simp] theorem answer_objects (result : Option UploadEvent) : (s.answer result).objects = s.objects := rfl
@[simp] theorem answer_returned (result : Option UploadEvent) : (s.answer result).returned = s.returned ++ result.toList := rfl
@[simp] theorem answer_staged (result : Option UploadEvent) (id : Nat) : (s.answer result).staged id = s.staged id := rfl
@[simp] theorem count_attachments (id n : Nat) : (s.count id n).attachments = s.attachments := rfl
@[simp] theorem count_objects (id n : Nat) : (s.count id n).objects = s.objects := rfl
@[simp] theorem count_returned (id n : Nat) : (s.count id n).returned = s.returned := rfl
@[simp] theorem count_staged (id n id' : Nat) : (s.count id n).staged id' = s.staged id' := rfl
@[simp] theorem deleteRow_attachments (id : Nat) : (s.deleteRow id).attachments = s.attachments := rfl
@[simp] theorem deleteRow_objects (id : Nat) : (s.deleteRow id).objects = s.objects := rfl
@[simp] theorem deleteRow_returned (id : Nat) : (s.deleteRow id).returned = s.returned := rfl

theorem setObject_objects (key k : StorageKey) (content : Option Bytes) :
    (s.setObject key content).objects k = if k = key then content else s.objects k := rfl

theorem setObject_staged (id : Nat) (content : Bytes) : (s.setObject (.upload id) (some content)).staged id = content := by
  simp [staged,setObject_objects]

theorem setObject_staged_ne {id : Nat} {key : StorageKey} (h : .upload id ≠ key) (content : Option Bytes) :
    (s.setObject key content).staged id = s.staged id := by
  rw [staged,setObject_objects,if_neg h,staged]

theorem mem_count {id n : Nat} : row ∈ (s.count id n).uploads.rows ↔
    ∃ r ∈ s.uploads.rows, (if r.id = id then countBytes n r else r) = row := by
  change row ∈ s.uploads.rows.map (fun r => if decide (r.id = id) then countBytes n r else r) ↔ _
  simp

theorem mem_deleteRow {id : Nat} : row ∈ (s.deleteRow id).uploads.rows ↔
    row ∈ s.uploads.rows ∧ row.id ≠ id := by
  change row ∈ s.uploads.rows.filter (fun r => !decide (r.id = id)) ↔ _
  simp

theorem lookup_count {id n : Nat} (h : s.uploads.lookup id = some row) :
    (s.count id n).uploads.lookup id = some (countBytes n row) := by
  obtain ⟨hmem,hid⟩ := Table.lookup_eq_some.mp h
  exact Table.lookup_eq_some.mpr ⟨s.mem_count.mpr ⟨row,hmem,if_pos hid⟩,hid⟩

theorem lookup_count_none {id n id' : Nat} (h : s.uploads.lookup id' = none) : (s.count id n).uploads.lookup id' = none := by
  refine Table.lookup_eq_none.mpr fun row hrow => ?_
  obtain ⟨r,hr,rfl⟩ := s.mem_count.mp hrow
  have hkey := Table.lookup_eq_none.mp h r hr
  split
  · exact hkey
  · exact hkey

theorem lookup_deleteRow (id : Nat) : (s.deleteRow id).uploads.lookup id = none :=
  Table.lookup_eq_none.mpr fun _ hrow => (s.mem_deleteRow.mp hrow).2

theorem lookup_deleteRow_none {id id' : Nat} (h : s.uploads.lookup id' = none) :
    (s.deleteRow id).uploads.lookup id' = none :=
  Table.lookup_eq_none.mpr fun row hrow => Table.lookup_eq_none.mp h row (s.mem_deleteRow.mp hrow).1

end UploadState

end State

section Instructions
variable (sha256 : Bytes → JsString)

/-- Steps that end a call carry what it returns. -/
inductive UploadInstr where
  | selectUpload (id offset : Nat) (chunk : Bytes)
  | readStaged (u : UploadRow) (chunk : Bytes)
  | putStaged (u : UploadRow) (chunk merged : Bytes)
  | updateCounters (u : UploadRow) (chunk : Bytes)
  | selectComplete (id : Nat)
  | streamStaged (u : UploadRow)
  | selectExisting (u : UploadRow) (body : Bytes)
  | putFinal (u : UploadRow) (body : Bytes)
  | removeStaged (u : UploadRow) (result : Option UploadEvent)
  | insertAttachment (u : UploadRow) (body : Bytes)
  | deleteUpload (u : UploadRow) (result : Option UploadEvent)
  deriving DecidableEq

/-- Whether the query or storage access fails. -/
structure Fault where
  fails : Bool

def attachmentOf (u : UploadRow) (body : Bytes) : AttachmentRow :=
  ⟨sha256 body,u.filename,u.mime,body.length,.attachment (sha256 body)⟩

/-- An access that succeeds; `none` is an exception. -/
def UploadInstr.run (s : UploadState) : UploadInstr → Option (UploadState × List UploadInstr)
  | .selectUpload id offset chunk =>
    match s.uploads.lookup id with
    | none => none
    | some u =>
      if u.offsetBytes ≠ offset then none
      else if u.uploadedBytes + chunk.length > u.sizeBytes then none
      else some (s,[.readStaged u chunk])
  | .readStaged u chunk => some (s,[.putStaged u chunk (s.staged u.id ++ chunk)])
  | .putStaged u chunk merged =>
    some (s.setObject u.storageKey (some merged),[.updateCounters u chunk])
  | .updateCounters u chunk =>
    match s.uploads.lookup u.id with
    | none => none
    | some _ => some ((s.count u.id chunk.length).answer (some (.appended u.id u.offsetBytes chunk)),[])
  | .selectComplete id =>
    match s.uploads.lookup id with
    | none => none
    | some u => if u.uploadedBytes ≠ u.sizeBytes then none else some (s,[.streamStaged u])
  | .streamStaged u => (s.objects u.storageKey).map fun body => (s,[.selectExisting u body])
  | .selectExisting u body =>
    let contentHash := sha256 body
    match s.attachments.lookup contentHash with
    | some _ => some (s,[.deleteUpload u none,.removeStaged u (some (.deduplicated u.id contentHash))])
    | none => some (s,[.putFinal u body,.removeStaged u none,.insertAttachment u body,
        .deleteUpload u (some (.stored u.id contentHash))])
  | .putFinal _ body =>
    some (s.setObject (.attachment (sha256 body)) (some body),[])
  | .removeStaged u result =>
    some ((s.setObject u.storageKey none).answer result,[])
  | .insertAttachment u body =>
    if h : s.attachments.lookup (attachmentOf sha256 u body).contentHash = none then
      some ({ s with attachments := s.attachments.insert (attachmentOf sha256 u body) h },[])
    else none
  | .deleteUpload u result => some ((s.deleteRow u.id).answer result,[])

/-- An access that fails. A staged object that cannot be read counts as empty, one that
cannot be removed is left behind; any other failure ends the call. -/
def UploadInstr.failure (s : UploadState) : UploadInstr → UploadState × Outcome UploadInstr
  | .readStaged u chunk => (s,.next [.putStaged u chunk chunk])
  | .removeStaged _ result => (s.answer result,.next [])
  | _ => (s,.throw)

def execUpload (s : UploadState) (instr : UploadInstr) (fault : Fault) : Option (UploadState × Outcome UploadInstr) :=
  if fault.fails then some (instr.failure s)
  else match instr.run sha256 s with
    | some (s',more) => some (s',.next more)
    | none => some (s,.throw)

/-- A call of `appendChunk`. -/
structure AppendCall where
  id : Nat
  offset : Nat
  chunk : Bytes

def appendBody (call : AppendCall) : List UploadInstr := [.selectUpload call.id call.offset call.chunk]
def finaliseBody (id : Nat) : List UploadInstr := [.selectComplete id]

abbrev UploadTasks := Tasks UploadState UploadInstr

def appendStep : UploadTasks → TaskAction AppendCall Fault → Option UploadTasks := taskStep (execUpload sha256) appendBody
def finaliseStep : UploadTasks → TaskAction Nat Fault → Option UploadTasks := taskStep (execUpload sha256) finaliseBody

end Instructions

/-- SHA-256 on the texts `abc` and `bc`, all that the examples hash. -/
def sampleSha256 (body : Bytes) : JsString :=
  if body = [97,98,99] then js "ba7816bf8f01cfea414140de5dae2223b00361a396177a9cb410ff61f20015ad"
  else if body = [98,99] then js "1e0bbd6c686ba050b8eb03ffeedc64fdc9d80947fce821abbe5d6dc8d252c5ac"
  else []

/-- What is left of `finaliseUpload` once it has found no duplicate. -/
def promotion (sha256 : Bytes → JsString) (u : UploadRow) (body : Bytes) : List UploadInstr :=
  [.putFinal u body,.removeStaged u none,.insertAttachment u body,.deleteUpload u (some (.stored u.id (sha256 body)))]

section Effects
variable {sha256 : Bytes → JsString} {s s' : UploadState} {instr : UploadInstr} {more : List UploadInstr}

def UploadInstr.write (sha256 : Bytes → JsString) : UploadInstr → Option (StorageKey × Option Bytes)
  | .putStaged u _ merged => some (u.storageKey,some merged)
  | .putFinal _ body => some (.attachment (sha256 body),some body)
  | .removeStaged u _ => some (u.storageKey,none)
  | _ => none

def UploadInstr.result : UploadInstr → Option UploadEvent
  | .updateCounters u chunk => some (.appended u.id u.offsetBytes chunk)
  | .removeStaged _ result | .deleteUpload _ result => result
  | _ => none

/-- What an access can change. Rows of `uploads` are only counted up and deleted. -/
structure UploadEffect (sha256 : Bytes → JsString) (instr : UploadInstr) (s s' : UploadState) : Prop where
  gone : ∀ id, s.uploads.lookup id = none → s'.uploads.lookup id = none
  objects : ∀ key, s'.objects key =
    match instr.write sha256 with
    | some (written,content) => if key = written then content else s.objects key
    | none => s.objects key
  attachments : ∀ row, row ∈ s'.attachments.rows ↔
    row ∈ s.attachments.rows ∨ ∃ u body, instr = .insertAttachment u body ∧ row = attachmentOf sha256 u body
  returned : s'.returned = s.returned ++ instr.result.toList

theorem UploadEffect.refl (hwrite : instr.write sha256 = none) (hresult : instr.result = none)
    (hinsert : ∀ u body, instr ≠ .insertAttachment u body) : UploadEffect sha256 instr s s := by
  refine ⟨fun _ h => h,fun key => by rw [hwrite],fun row => ?_,by simp [hresult]⟩
  exact ⟨.inl,fun h => h.elim id fun ⟨u,body,hinstr,_⟩ => absurd hinstr (hinsert u body)⟩

section Inversion
variable {id offset : Nat} {chunk body : Bytes} {u : UploadRow}

/-- A chunk passes the checks of its call. -/
theorem run_selectUpload (h : (UploadInstr.selectUpload id offset chunk).run sha256 s = some (s',more)) :
    ∃ u, s.uploads.lookup id = some u ∧ u.offsetBytes = offset ∧ u.uploadedBytes + chunk.length ≤ u.sizeBytes ∧
      s' = s ∧ more = [.readStaged u chunk] := by
  simp only [UploadInstr.run] at h
  split at h
  · simp at h
  · rename_i u hu
    obtain ⟨hoffset,h⟩ := Option.ite_none_left_eq_some.mp h
    obtain ⟨hfits,h⟩ := Option.ite_none_left_eq_some.mp h
    cases h
    exact ⟨u,hu,not_not.mp hoffset,Nat.le_of_not_lt hfits,rfl,rfl⟩

theorem run_updateCounters (h : (UploadInstr.updateCounters u chunk).run sha256 s = some (s',more)) :
    s' = (s.count u.id chunk.length).answer (some (.appended u.id u.offsetBytes chunk)) ∧ more = [] := by
  simp only [UploadInstr.run] at h
  split at h
  · simp at h
  · cases h
    exact ⟨rfl,rfl⟩

theorem run_selectComplete (h : (UploadInstr.selectComplete id).run sha256 s = some (s',more)) :
    ∃ u, s.uploads.lookup id = some u ∧ u.uploadedBytes = u.sizeBytes ∧ s' = s ∧ more = [.streamStaged u] := by
  simp only [UploadInstr.run] at h
  split at h
  · simp at h
  · rename_i u hu
    obtain ⟨hcomplete,h⟩ := Option.ite_none_left_eq_some.mp h
    cases h
    exact ⟨u,hu,not_not.mp hcomplete,rfl,rfl⟩

theorem run_streamStaged (h : (UploadInstr.streamStaged u).run sha256 s = some (s',more)) :
    ∃ body, s.objects u.storageKey = some body ∧ s' = s ∧ more = [.selectExisting u body] := by
  obtain ⟨body,hbody,h⟩ := Option.map_eq_some_iff.mp h
  cases h
  exact ⟨body,hbody,rfl,rfl⟩

/-- A duplicate is dropped, anything else promoted. -/
theorem run_selectExisting (h : (UploadInstr.selectExisting u body).run sha256 s = some (s',more)) :
    s' = s ∧ (more = [.deleteUpload u none,.removeStaged u (some (.deduplicated u.id (sha256 body)))] ∨
      more = promotion sha256 u body) := by
  simp only [UploadInstr.run] at h
  split at h
  · cases h
    exact ⟨rfl,.inl rfl⟩
  · cases h
    exact ⟨rfl,.inr rfl⟩

theorem run_insertAttachment (h : (UploadInstr.insertAttachment u body).run sha256 s = some (s',more)) :
    s'.uploads = s.uploads ∧ s'.objects = s.objects ∧ s'.returned = s.returned ∧
      (∀ row, row ∈ s'.attachments.rows ↔ row ∈ s.attachments.rows ∨ row = attachmentOf sha256 u body) ∧ more = [] := by
  simp only [UploadInstr.run] at h
  split at h
  · cases h
    exact ⟨rfl,rfl,rfl,fun row => by simp [Table.insert],rfl⟩
  · simp at h

end Inversion

theorem run_effect (h : instr.run sha256 s = some (s',more)) : UploadEffect sha256 instr s s' := by
  cases instr with
  | selectUpload id offset chunk =>
    obtain ⟨u,-,-,-,rfl,-⟩ := run_selectUpload h
    exact .refl rfl rfl (by simp)
  | readStaged u chunk =>
    cases h
    exact .refl rfl rfl (by simp)
  | putStaged u chunk merged =>
    cases h
    exact ⟨fun _ h => h,fun _ => rfl,by simp,by simp [UploadInstr.result]⟩
  | updateCounters u chunk =>
    obtain ⟨rfl,-⟩ := run_updateCounters h
    exact ⟨fun id hid => s.lookup_count_none hid,fun _ => rfl,by simp,rfl⟩
  | selectComplete id =>
    obtain ⟨u,-,-,rfl,-⟩ := run_selectComplete h
    exact .refl rfl rfl (by simp)
  | streamStaged u =>
    obtain ⟨body,-,rfl,-⟩ := run_streamStaged h
    exact .refl rfl rfl (by simp)
  | selectExisting u body =>
    obtain ⟨rfl,-⟩ := run_selectExisting h
    exact .refl rfl rfl (by simp)
  | putFinal u body =>
    cases h
    exact ⟨fun _ h => h,fun _ => rfl,by simp,by simp [UploadInstr.result]⟩
  | removeStaged u result =>
    cases h
    exact ⟨fun _ h => h,fun _ => rfl,by simp,rfl⟩
  | insertAttachment u body =>
    obtain ⟨huploads,hobjects,hreturned,hrows,-⟩ := run_insertAttachment h
    refine ⟨fun id hid => huploads ▸ hid,fun key => congrFun hobjects key,fun row => ?_,by simp [hreturned,UploadInstr.result]⟩
    rw [hrows]
    simp
  | deleteUpload u result =>
    cases h
    exact ⟨fun id hid => s.lookup_deleteRow_none hid,fun _ => rfl,by simp,rfl⟩

/-- An access that fails changes nothing, but the call may return nonetheless. -/
theorem failure_effect {outcome : Outcome UploadInstr} (h : instr.failure s = (s',outcome)) :
    ∃ result, (result = none ∨ ∃ u, instr = .removeStaged u result) ∧ s' = s.answer result := by
  have hnone : s.answer none = s := by simp [UploadState.answer]
  cases instr with
  | removeStaged u result =>
    cases h
    exact ⟨result,.inr ⟨u,rfl⟩,rfl⟩
  | _ =>
    cases h
    exact ⟨none,.inl rfl,hnone.symm⟩

end Effects

section Steps
variable {sha256 : Bytes → JsString} {ω : Type} {body : ω → List UploadInstr} {s t : UploadTasks} {a : TaskAction ω Fault}

/-- An access fails, the call throws an exception of its own, or the access succeeds. -/
theorem execUpload_cases {s s' : UploadState} {instr : UploadInstr} {fault : Fault} {outcome : Outcome UploadInstr}
    (h : execUpload sha256 s instr fault = some (s',outcome)) :
    (fault.fails = true ∧ instr.failure s = (s',outcome)) ∨
    (fault.fails = false ∧ instr.run sha256 s = none ∧ s' = s ∧ outcome = .throw) ∨
    ∃ more, fault.fails = false ∧ instr.run sha256 s = some (s',more) ∧ outcome = .next more := by
  rw [execUpload] at h
  cases hfails : fault.fails with
  | true =>
    rw [if_pos hfails,Option.some.injEq] at h
    exact .inl ⟨rfl,h⟩
  | false =>
    rw [if_neg (by simp [hfails])] at h
    cases hrun : instr.run sha256 s with
    | none =>
      rw [hrun] at h
      cases h
      exact .inr (.inl ⟨rfl,rfl,rfl,rfl⟩)
    | some result =>
      rw [hrun] at h
      cases h
      exact .inr (.inr ⟨_,rfl,rfl,rfl⟩)

/-- What a step can do: a call, an access that fails, an exception of the call itself,
or an access that succeeds. -/
theorem uploadStep_cases (h : taskStep (execUpload sha256) body s a = some t) :
    (∃ op, a = .call op ∧ t = ⟨s.shared,s.running ++ [body op]⟩) ∨
    ∃ i fault instr rest, a = .exec i fault ∧ s.running[i]? = some (instr :: rest) ∧
      ((fault.fails = true ∧
        t = ⟨(instr.failure s.shared).1,s.running.set i ((instr.failure s.shared).2.continuation rest)⟩) ∨
      (fault.fails = false ∧ instr.run sha256 s.shared = none ∧ t = ⟨s.shared,s.running.set i []⟩) ∨
      ∃ shared more, fault.fails = false ∧ instr.run sha256 s.shared = some (shared,more) ∧
        t = ⟨shared,s.running.set i (more ++ rest)⟩) := by
  rcases taskStep_cases h with ⟨op,ha,ht⟩ | ⟨i,fault,instr,rest,shared,outcome,ha,hi,hexec,ht⟩
  · exact .inl ⟨op,ha,ht⟩
  · refine .inr ⟨i,fault,instr,rest,ha,hi,?_⟩
    rcases execUpload_cases hexec with ⟨hfails,hfailure⟩ | ⟨hfails,hrun,rfl,rfl⟩ | ⟨more,hfails,hrun,rfl⟩
    · exact .inl ⟨hfails,by rw [ht,hfailure]⟩
    · exact .inr (.inl ⟨hfails,hrun,ht⟩)
    · exact .inr (.inr ⟨shared,more,hfails,hrun,ht⟩)

end Steps
end JustMail.Attachments
