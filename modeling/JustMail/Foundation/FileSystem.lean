import JustMail.Foundation.KeyedTable
import Mathlib.Data.List.DropRight
import Mathlib.Data.List.Infix

/-! A file system of directories and files, without links and permissions, and the calls of POSIX that
work on it. A path is the list of the names that lead to it from the root. -/
namespace JustMail.Foundation.FileSystem

section Calls

abbrev Name := List UInt8
abbrev FilePath := List Name

/-- A directory has no content. -/
structure Inode where
  path : FilePath
  content : Option (List UInt8)
  deriving DecidableEq

/-- The root is there without an inode. -/
abbrev Disk := Table Inode.path

inductive Errno
  | ENOENT
  | ENOTDIR
  | EISDIR
  | EEXIST
  | EINVAL
  deriving DecidableEq

namespace Disk
variable (d : Disk)

def isDir (p : FilePath) : Bool := p.isEmpty || (d.lookup p).any (·.content.isNone)

def fileAt (p : FilePath) : Option (List UInt8) := (d.lookup p).bind (·.content)

/-- What is wrong with a way that does not lead through a directory. -/
def notDir (p : FilePath) : Errno := if (d.lookup p).isSome then .ENOTDIR else .ENOENT

/-- The way to the last name leads through directories. -/
def blocked (done : FilePath) : FilePath → Option Errno
  | name :: next :: rest =>
    if isDir d (done ++ [name]) then blocked (done ++ [name]) (next :: rest) else some (notDir d (done ++ [name]))
  | _ => none

/-- Every directory on the way is made that is not there. -/
def mkdirFrom (d : Disk) (done : FilePath) : FilePath → Except Errno Disk
  | [] => .ok d
  | name :: rest =>
    let p := done ++ [name]
    if isDir d p then mkdirFrom d p rest
    else if (d.lookup p).isSome then .error (if rest = [] then .EEXIST else .ENOTDIR)
    else mkdirFrom (d.upsert ⟨p,none⟩) p rest

/-- `mkdir(p, { recursive: true })`. -/
def mkdir (p : FilePath) : Except Errno Disk := mkdirFrom d [] p

/-- The file that a call works on. -/
def openFile (p : FilePath) : Except Errno (List UInt8) :=
  match blocked d [] p with
  | some e => .error e
  | none =>
    if isDir d p then .error .EISDIR
    else match fileAt d p with
      | none => .error .ENOENT
      | some content => .ok content

/-- A new file, or new content of one. -/
def writeFile (p : FilePath) (content : List UInt8) : Except Errno Disk :=
  match blocked d [] p with
  | some e => .error e
  | none => if isDir d p then .error .EISDIR else .ok (d.upsert ⟨p,some content⟩)

def unlink (p : FilePath) : Except Errno Disk := (openFile d p).map fun _ => d.deleteWhere fun i => i.path = p

/-- `rename` of a file. -/
def rename (p q : FilePath) : Except Errno Disk :=
  match openFile d p with
  | .error e => .error e
  | .ok content => if p = q then .ok d else writeFile (d.deleteWhere fun i => i.path = p) q content

def copyFile (p q : FilePath) : Except Errno Disk :=
  match openFile d p with
  | .error e => .error e
  | .ok content => if p = q then .ok d else writeFile d q content

/-- The content of a file, or nothing for a directory. -/
def stat (p : FilePath) : Except Errno (Option (List UInt8)) :=
  match blocked d [] p with
  | some e => .error e
  | none => if isDir d p then .ok none else match fileAt d p with
    | none => .error .ENOENT
    | some content => .ok (some content)

/-- The entries of a directory, and which of them are directories. -/
def entries (p : FilePath) : List (Name × Bool) :=
  d.rows.filterMap fun i => (i.path.getLast?).bind fun name => if i.path.dropLast = p then some (name,i.content.isNone) else none

end Disk

/-- The order in which a file system lists entries. -/
structure ReaddirOrder where
  arrange : List (Name × Bool) → List (Name × Bool)
  perm (l : List (Name × Bool)) : (arrange l).Perm l

def Disk.readdir (order : ReaddirOrder) (d : Disk) (p : FilePath) : Except Errno (List (Name × Bool)) :=
  match blocked d [] p with
  | some e => .error e
  | none => if isDir d p then .ok (order.arrange (entries d p)) else .error (notDir d p)

/-- A program that works on a disk. What it has done stays done when it fails. -/
def Fs (ε α : Type) := Disk → Except ε α × Disk

namespace Fs
variable {ε α : Type}

instance : Monad (Fs ε) where
  pure a := fun d => (.ok a,d)
  bind m f := fun d => match m d with
    | (.ok a,d) => f a d
    | (.error e,d) => (.error e,d)

instance : MonadExceptOf ε (Fs ε) where
  throw e := fun d => (.error e,d)
  tryCatch m f := fun d => match m d with
    | (.ok a,d) => (.ok a,d)
    | (.error e,d) => f e d

def change (f : Disk → Except ε Disk) : Fs ε Unit := fun d => match f d with
  | .ok d => (.ok (),d)
  | .error e => (.error e,d)

/-- A call that leaves the disk as it is. -/
def ask (f : Disk → Except ε α) : Fs ε α := fun d => (f d,d)

theorem bind_apply {β : Type} (m : Fs ε α) (f : α → Fs ε β) (d : Disk) : (m >>= f) d = match m d with
    | (.ok a,d) => f a d
    | (.error e,d) => (.error e,d) := rfl

theorem tryCatch_apply (m : Fs ε α) (f : ε → Fs ε α) (d : Disk) : (tryCatch m f) d = match m d with
    | (.ok a,d) => (.ok a,d)
    | (.error e,d) => f e d := rfl

end Fs

end Calls

section Trees
variable {d d' : Disk} {p q done : FilePath} {name : Name} {content : List UInt8} {e : Errno}
open Disk

/-- Every entry is one of a directory. -/
def Grown (d : Disk) : Prop := ∀ p i, d.lookup p = some i → p ≠ [] ∧ isDir d p.dropLast = true

theorem grown_empty : Grown .empty := fun _ _ h => by cases h

@[simp] theorem isDir_root (d : Disk) : isDir d [] = true := rfl

theorem isDir_iff (hp : p ≠ []) : isDir d p = true ↔ ∃ i, d.lookup p = some i ∧ i.content = none := by
  simp [isDir,hp,Option.any_eq_true]

theorem fileAt_eq_some : fileAt d p = some content ↔ ∃ i, d.lookup p = some i ∧ i.content = some content := Option.bind_eq_some_iff

theorem not_isDir_of_fileAt (hp : p ≠ []) (h : fileAt d p = some content) : isDir d p = false := by
  obtain ⟨i,hi,hc⟩ := fileAt_eq_some.mp h
  rw [Bool.eq_false_iff]
  intro hdir
  obtain ⟨j,hj,hnone⟩ := (isDir_iff hp).mp hdir
  obtain rfl := Option.some.inj (hi.symm.trans hj)
  rw [hnone] at hc
  cases hc

/-- The way to an entry. -/
theorem Grown.isDir_above (h : Grown d) (hp : isDir d p = true) (hq : q <+: p) : isDir d q = true := by
  induction p using List.reverseRecOn with
  | nil =>
    rw [List.prefix_nil.mp hq]
    exact hp
  | append_singleton p name ih =>
    rcases List.prefix_concat_iff.mp hq with rfl | hq
    · exact hp
    · obtain ⟨i,hi,-⟩ := (isDir_iff (by simp)).mp hp
      have hparent := (h _ i hi).2
      rw [List.dropLast_concat] at hparent
      exact ih hparent hq

theorem blocked_eq_none (h : ∀ q, q <+: p.dropLast → isDir d (done ++ q) = true) : blocked d done p = none := by
  induction p generalizing done with
  | nil => rfl
  | cons name p ih =>
    cases p with
    | nil => rfl
    | cons next rest =>
      have hfirst := h [name] (by simp)
      rw [blocked,if_pos hfirst]
      refine ih fun q hq => ?_
      have hnext := h (name :: q) (by simpa using hq)
      rwa [List.append_assoc]

theorem isDir_of_blocked (hdone : isDir d done = true) (h : blocked d done p = none) : isDir d (done ++ p.dropLast) = true := by
  induction p generalizing done with
  | nil => simpa using hdone
  | cons name p ih =>
    cases p with
    | nil => simpa using hdone
    | cons next rest =>
      rw [blocked] at h
      split at h
      · rename_i hname
        have hrest := ih hname h
        rwa [List.append_assoc] at hrest
      · cases h

/-- In a tree only the parent matters. -/
theorem Grown.blocked_iff (h : Grown d) : blocked d [] p = none ↔ isDir d p.dropLast = true := by
  constructor
  · exact fun hb => by simpa using isDir_of_blocked rfl hb
  · exact fun hdir => blocked_eq_none fun q hq => by simpa using h.isDir_above hdir hq

/-- A tree with the same directories and other files. -/
structure Refiled (d d' : Disk) (files : FilePath → Option (List UInt8)) : Prop where
  grown : Grown d'
  isDir_eq : ∀ q, isDir d' q = isDir d q
  fileAt_eq : ∀ q, fileAt d' q = files q

theorem openFile_eq_ok (h : openFile d p = .ok content) : fileAt d p = some content ∧ isDir d p = false ∧ blocked d [] p = none := by
  rw [openFile] at h
  split at h
  · cases h
  · rename_i hb
    split at h
    · cases h
    · rename_i hdir
      split at h
      · cases h
      · rename_i c hc
        rw [hc,Except.ok.inj h]
        exact ⟨rfl,by simpa using hdir,hb⟩

/-- A file in a tree can be opened. -/
theorem Grown.openFile_of_fileAt (h : Grown d) (hfile : fileAt d p = some content) : openFile d p = .ok content := by
  obtain ⟨i,hi,-⟩ := fileAt_eq_some.mp hfile
  obtain ⟨hne,hparent⟩ := h p i hi
  rw [openFile,h.blocked_iff.mpr hparent]
  simp [not_isDir_of_fileAt hne hfile,hfile]

theorem Grown.stat_of_fileAt (h : Grown d) (hfile : fileAt d p = some content) : stat d p = .ok (some content) := by
  obtain ⟨i,hi,-⟩ := fileAt_eq_some.mp hfile
  obtain ⟨hne,hparent⟩ := h p i hi
  rw [stat,h.blocked_iff.mpr hparent]
  simp [not_isDir_of_fileAt hne hfile,hfile]

theorem writeFile_refiled (hd : Grown d) (h : writeFile d p content = .ok d') :
    Refiled d d' fun q => if q = p then some content else fileAt d q := by
  rw [writeFile] at h
  split at h
  · cases h
  · rename_i hb
    split at h
    · cases h
    · rename_i hdir
      cases h
      have hp : p ≠ [] := by
        rintro rfl
        exact hdir rfl
      have hdirs : ∀ q, isDir (d.upsert ⟨p,some content⟩) q = isDir d q := by
        intro q
        by_cases hq : q = p
        · subst hq
          rw [Bool.not_eq_true] at hdir
          rw [hdir,isDir,Table.lookup_upsert,if_pos rfl]
          simp [hp]
        · rw [isDir,isDir,Table.lookup_upsert,if_neg hq]
      refine ⟨fun q i hi => ?_,hdirs,fun q => ?_⟩
      · rw [hdirs]
        rw [Table.lookup_upsert] at hi
        split at hi
        · rename_i hq
          dsimp only at hq
          rw [hq]
          exact ⟨hp,hd.blocked_iff.mp hb⟩
        · exact hd q i hi
      · rw [fileAt,Table.lookup_upsert]
        split
        · rfl
        · rfl

theorem delete_refiled (hd : Grown d) (hp : isDir d p = false) :
    Refiled d (d.deleteWhere fun i => i.path = p) fun q => if q = p then none else fileAt d q := by
  have hlookup : ∀ q, (d.deleteWhere fun i => decide (i.path = p)).lookup q = if q = p then none else d.lookup q := by
    intro q
    rw [Table.lookup_deleteWhere]
    cases hq : d.lookup q with
    | none => simp
    | some i => simp [Option.filter,Table.key_of_lookup hq]
  have hdirs : ∀ q, isDir (d.deleteWhere fun i => decide (i.path = p)) q = isDir d q := by
    intro q
    rw [isDir,isDir,hlookup]
    split
    · rename_i hq
      subst hq
      obtain ⟨hempty,hany⟩ := Bool.or_eq_false_iff.mp hp
      rw [hempty,hany]
      rfl
    · rfl
  refine ⟨fun q i hi => ?_,hdirs,fun q => ?_⟩
  · rw [hdirs]
    rw [hlookup] at hi
    split at hi
    · cases hi
    · exact hd q i hi
  · rw [fileAt,hlookup]
    split <;> rfl

theorem unlink_refiled (hd : Grown d) (h : unlink d p = .ok d') : Refiled d d' fun q => if q = p then none else fileAt d q := by
  rw [unlink] at h
  cases ho : openFile d p with
  | error e =>
    rw [ho] at h
    cases h
  | ok content =>
    rw [ho] at h
    cases h
    exact delete_refiled hd (openFile_eq_ok ho).2.1

theorem rename_refiled (hd : Grown d) (hne : p ≠ q) (h : rename d p q = .ok d') : ∃ content, fileAt d p = some content ∧
    Refiled d d' fun r => if r = q then some content else if r = p then none else fileAt d r := by
  rw [rename] at h
  split at h
  · cases h
  · rename_i content ho
    rw [if_neg hne] at h
    obtain ⟨hfile,hdir,-⟩ := openFile_eq_ok ho
    have hdeleted := delete_refiled hd hdir
    have hwritten := writeFile_refiled hdeleted.grown h
    refine ⟨content,hfile,hwritten.grown,fun r => (hwritten.isDir_eq r).trans (hdeleted.isDir_eq r),fun r => ?_⟩
    rw [hwritten.fileAt_eq,hdeleted.fileAt_eq]

theorem copyFile_refiled (hd : Grown d) (h : copyFile d p q = .ok d') : ∃ content, fileAt d p = some content ∧
    Refiled d d' fun r => if r = q then some content else fileAt d r := by
  rw [copyFile] at h
  split at h
  · cases h
  · rename_i content ho
    obtain ⟨hfile,-,-⟩ := openFile_eq_ok ho
    refine ⟨content,hfile,?_⟩
    split at h
    · rename_i hpq
      cases h
      refine ⟨hd,fun _ => rfl,fun r => ?_⟩
      split
      · rename_i hr
        rw [hr,← hpq,hfile]
      · rfl
    · exact writeFile_refiled hd h

/-- Directories have come in on the way to a path. -/
structure Widened (d d' : Disk) (p : FilePath) : Prop where
  grown : Grown d'
  isDir_iff : ∀ q, isDir d' q = true ↔ isDir d q = true ∨ q <+: p
  fileAt_eq : ∀ q, fileAt d' q = fileAt d q

theorem mkdirFrom_widened {rest : FilePath} (hd : Grown d) (hdone : isDir d done = true) (h : mkdirFrom d done rest = .ok d') :
    Widened d d' (done ++ rest) := by
  induction rest generalizing d done with
  | nil =>
    cases h
    refine ⟨hd,fun q => ⟨.inl,fun hq => hq.elim id fun hpre => ?_⟩,fun _ => rfl⟩
    rw [List.append_nil] at hpre
    exact hd.isDir_above hdone hpre
  | cons name rest ih =>
    have htext : done ++ name :: rest = (done ++ [name]) ++ rest := by simp
    rw [htext]
    rw [mkdirFrom] at h
    split at h
    · rename_i hname
      exact ih hd hname h
    · rename_i hname
      split at h
      · cases h
      · rename_i hfree
        have hlookup : d.lookup (done ++ [name]) = none := by simpa using hfree
        have hdirs : ∀ q, isDir (d.upsert ⟨done ++ [name],none⟩) q = true ↔ isDir d q = true ∨ q = done ++ [name] := by
          intro q
          by_cases hq : q = done ++ [name]
          · subst hq
            simp [isDir,Table.lookup_upsert]
          · rw [isDir,isDir,Table.lookup_upsert,if_neg hq]
            simp [hq]
        have hfiles : ∀ q, fileAt (d.upsert ⟨done ++ [name],none⟩) q = fileAt d q := by
          intro q
          rw [fileAt,fileAt,Table.lookup_upsert]
          split
          · rename_i hq
            dsimp only at hq
            rw [hq,hlookup]
            rfl
          · rfl
        have hgrown : Grown (d.upsert ⟨done ++ [name],none⟩) := by
          intro q i hi
          rw [Table.lookup_upsert] at hi
          split at hi
          · rename_i hq
            dsimp only at hq
            rw [hq,List.dropLast_concat]
            exact ⟨by simp,(hdirs _).mpr (.inl hdone)⟩
          · exact ⟨(hd q i hi).1,(hdirs _).mpr (.inl (hd q i hi).2)⟩
        have hrest := ih hgrown ((hdirs _).mpr (.inr rfl)) h
        refine ⟨hrest.grown,fun q => ?_,fun q => (hrest.fileAt_eq q).trans (hfiles q)⟩
        rw [hrest.isDir_iff,hdirs]
        constructor
        · rintro ((hq | rfl) | hq)
          · exact .inl hq
          · exact .inr (List.prefix_append _ _)
          · exact .inr hq
        · rintro (hq | hq)
          · exact .inl (.inl hq)
          · exact .inr hq

theorem mkdir_widened (hd : Grown d) (h : mkdir d p = .ok d') : Widened d d' p := mkdirFrom_widened hd rfl h

end Trees
section Walks
variable {d : Disk} {order : ReaddirOrder} {p q : FilePath} {name : Name} {fuel : Nat}
open Disk

/-- The files below a directory, to a depth of `fuel`. -/
def walkFiles (order : ReaddirOrder) (d : Disk) : Nat → FilePath → List FilePath
  | 0,_ => []
  | fuel+1,p =>
    (order.arrange (entries d p)).flatMap fun e => if e.2 then walkFiles order d fuel (p ++ [e.1]) else [p ++ [e.1]]

theorem mem_entries {directory : Bool} :
    (name,directory) ∈ entries d p ↔ ∃ i, d.lookup (p ++ [name]) = some i ∧ i.content.isNone = directory := by
  simp only [entries,List.mem_filterMap,Option.bind_eq_some_iff]
  constructor
  · rintro ⟨i,hi,last,hlast,hentry⟩
    split at hentry
    · rename_i hparent
      obtain ⟨rfl,rfl⟩ := Prod.mk.inj (Option.some.inj hentry)
      have hpath : i.path = p ++ [last] := by rw [← hparent,List.dropLast_append_getLast? last hlast]
      exact ⟨i,Table.lookup_eq_some.mpr ⟨hi,hpath⟩,rfl⟩
    · cases hentry
  · rintro ⟨i,hi,rfl⟩
    obtain ⟨hmem,hpath⟩ := Table.lookup_eq_some.mp hi
    exact ⟨i,hmem,name,by rw [hpath,List.getLast?_concat],by rw [hpath,List.dropLast_concat,if_pos rfl]⟩

theorem Disk.readdir_eq_ok {l : List (Name × Bool)} (h : readdir order d p = .ok l) : l = order.arrange (entries d p) := by
  rw [readdir] at h
  split at h
  · cases h
  · split at h
    · exact (Except.ok.inj h).symm
    · cases h

/-- A directory with entries can be read. -/
theorem Grown.readdir_of_entry (h : Grown d) (he : entries d p ≠ []) : readdir order d p = .ok (order.arrange (entries d p)) := by
  obtain ⟨⟨name,directory⟩,hmem⟩ := List.exists_mem_of_ne_nil _ he
  obtain ⟨i,hi,-⟩ := mem_entries.mp hmem
  have hdir := (h _ i hi).2
  rw [List.dropLast_concat] at hdir
  have hway : isDir d p.dropLast = true := h.isDir_above hdir (List.dropLast_prefix p)
  rw [readdir,h.blocked_iff.mpr hway]
  exact if_pos hdir

/-- The names in a directory are different. -/
theorem pairwise_entries (d : Disk) (p : FilePath) : (entries d p).Pairwise fun e e' => e.1 ≠ e'.1 := by
  have hpath : ∀ {i : Inode} {e : Name × Bool}, ((i.path.getLast?).bind fun name =>
      if i.path.dropLast = p then some (name,i.content.isNone) else none) = some e → i.path = p ++ [e.1] := by
    intro i e h
    obtain ⟨last,hlast,hentry⟩ := Option.bind_eq_some_iff.mp h
    split at hentry
    · rename_i hparent
      cases hentry
      rw [← hparent,List.dropLast_append_getLast? last hlast]
    · cases hentry
  rw [entries,List.pairwise_filterMap]
  refine (List.pairwise_map.mp d.unique).imp fun hne e he e' he' heq => ?_
  rw [hpath he,hpath he',heq] at hne
  exact hne rfl

theorem prefix_of_mem_walkFiles (h : q ∈ walkFiles order d fuel p) : p <+: q ∧ p ≠ q := by
  induction fuel generalizing p with
  | zero => cases h
  | succ fuel ih =>
    obtain ⟨e,-,hq⟩ := List.mem_flatMap.mp h
    split at hq
    · obtain ⟨hpre,-⟩ := ih hq
      refine ⟨(List.prefix_append p [e.1]).trans hpre,?_⟩
      rintro rfl
      have hlen := hpre.length_le
      rw [List.length_append,List.length_singleton] at hlen
      omega
    · rw [List.mem_singleton.mp hq]
      exact ⟨List.prefix_append p [e.1],by simp⟩

/-- In a tree that is not too deep a walk comes to every file. -/
theorem mem_walkFiles (hd : Grown d) (hdepth : ∀ r i, d.lookup r = some i → p <+: r → r.length ≤ p.length + fuel) :
    q ∈ walkFiles order d fuel p ↔ p <+: q ∧ p ≠ q ∧ ∃ content, fileAt d q = some content := by
  induction fuel generalizing p with
  | zero =>
    refine ⟨fun h => absurd h List.not_mem_nil,?_⟩
    rintro ⟨hpre,hne,content,hfile⟩
    obtain ⟨i,hi,-⟩ := fileAt_eq_some.mp hfile
    exact absurd (hpre.eq_of_length_le (hdepth q i hi hpre)) hne
  | succ fuel ih =>
    have hnext : ∀ name r i, d.lookup r = some i → p ++ [name] <+: r → r.length ≤ (p ++ [name]).length + fuel := by
      intro name r i hi hpre
      have hlen := hdepth r i hi ((List.prefix_append p [name]).trans hpre)
      rw [List.length_append,List.length_singleton]
      omega
    simp only [walkFiles,List.mem_flatMap,(order.perm _).mem_iff]
    constructor
    · rintro ⟨⟨name,directory⟩,he,hq⟩
      obtain ⟨i,hi,hcontent⟩ := mem_entries.mp he
      cases directory with
      | true =>
        obtain ⟨hpre,hne,hfile⟩ := (ih (hnext name)).mp hq
        refine ⟨(List.prefix_append p [name]).trans hpre,?_,hfile⟩
        rintro rfl
        have hlen := hpre.length_le
        rw [List.length_append,List.length_singleton] at hlen
        omega
      | false =>
        rw [List.mem_singleton.mp hq]
        obtain ⟨content,hc⟩ := Option.ne_none_iff_exists'.mp (Option.isNone_eq_false_iff.mp hcontent |> Option.isSome_iff_ne_none.mp)
        exact ⟨List.prefix_append p [name],by simp,content,fileAt_eq_some.mpr ⟨i,hi,hc⟩⟩
    · rintro ⟨⟨rest,rfl⟩,hne,content,hfile⟩
      obtain ⟨i,hi,hc⟩ := fileAt_eq_some.mp hfile
      cases rest with
      | nil => simp at hne
      | cons name rest =>
        cases rest with
        | nil => exact ⟨(name,false),mem_entries.mpr ⟨i,hi,by rw [hc]; rfl⟩,List.mem_singleton_self _⟩
        | cons next rest =>
          have hparent := (hd _ i hi).2
          have hdir : isDir d (p ++ [name]) = true := hd.isDir_above hparent ⟨(next :: rest).dropLast,by simp⟩
          obtain ⟨j,hj,hnone⟩ := (isDir_iff (by simp)).mp hdir
          refine ⟨(name,true),mem_entries.mpr ⟨j,hj,by rw [hnone]; rfl⟩,(ih (hnext name)).mpr ⟨⟨next :: rest,by simp⟩,?_,content,hfile⟩⟩
          simp

theorem nodup_walkFiles (order : ReaddirOrder) (d : Disk) (fuel : Nat) (p : FilePath) : (walkFiles order d fuel p).Nodup := by
  induction fuel generalizing p with
  | zero => exact List.nodup_nil
  | succ fuel ih =>
    rw [walkFiles,List.nodup_flatMap]
    refine ⟨fun e _ => ?_,?_⟩
    · split
      · exact ih _
      · exact List.nodup_singleton _
    · have hbelow : ∀ (e : Name × Bool) q, q ∈ (if e.2 then walkFiles order d fuel (p ++ [e.1]) else [p ++ [e.1]]) → p ++ [e.1] <+: q := by
        intro e q hq
        split at hq
        · exact (prefix_of_mem_walkFiles hq).1
        · rw [List.mem_singleton.mp hq]
      have hnames := ((order.perm (entries d p)).pairwise_iff fun h => Ne.symm h).mpr (pairwise_entries d p)
      refine hnames.imp fun {e e'} hne q hq hq' => hne ?_
      have hsame := List.prefix_of_prefix_length_le (hbelow e q hq) (hbelow e' q hq') (by simp)
      have heq := hsame.eq_of_length (by simp)
      exact List.cons.inj (List.append_cancel_left heq) |>.1

end Walks

section Confinement
variable {ε α β : Type} {zone p q : FilePath} {d e : Disk}
open Disk

/-- The disks are the same outside of a directory. -/
def AgreeOff (zone : FilePath) (d e : Disk) : Prop := ∀ p, ¬zone <+: p → d.lookup p = e.lookup p

/-- A program neither writes nor reads in a directory. -/
structure Confined (zone : FilePath) (m : Fs ε α) : Prop where
  frame : ∀ d p, zone <+: p → (m d).2.lookup p = d.lookup p
  blind : ∀ d e, AgreeOff zone d e → (m d).1 = (m e).1 ∧ AgreeOff zone (m d).2 (m e).2

theorem confined_pure (a : α) : Confined zone (pure a : Fs ε α) := ⟨fun _ _ _ => rfl,fun _ _ h => ⟨rfl,h⟩⟩

theorem confined_throw (x : ε) : Confined zone (throw x : Fs ε α) := ⟨fun _ _ _ => rfl,fun _ _ h => ⟨rfl,h⟩⟩

private theorem bind_cases (m : Fs ε α) (f : α → Fs ε β) (d : Disk) :
    (∃ a d', m d = (.ok a,d') ∧ (m >>= f) d = f a d') ∨ ∃ x d', m d = (.error x,d') ∧ (m >>= f) d = (.error x,d') := by
  cases h : m d with
  | mk r d' =>
    cases r with
    | ok a => exact .inl ⟨a,d',rfl,by rw [Fs.bind_apply,h]⟩
    | error x => exact .inr ⟨x,d',rfl,by rw [Fs.bind_apply,h]⟩

theorem confined_bind {m : Fs ε α} {f : α → Fs ε β} (hm : Confined zone m) (hf : ∀ a, Confined zone (f a)) :
    Confined zone (m >>= f) := by
  constructor
  · intro d p hp
    have hfirst := hm.frame d p hp
    rcases bind_cases m f d with ⟨a,d',hd,hbind⟩ | ⟨x,d',hd,hbind⟩
    · rw [hd] at hfirst
      rw [hbind,(hf a).frame d' p hp,hfirst]
    · rw [hd] at hfirst
      rw [hbind,hfirst]
  · intro d e hagree
    obtain ⟨hsame,hnext⟩ := hm.blind d e hagree
    rcases bind_cases m f d with ⟨a,d',hd,hbind⟩ | ⟨x,d',hd,hbind⟩
    · rcases bind_cases m f e with ⟨b,e',he,hbind'⟩ | ⟨y,e',he,hbind'⟩
      · rw [hd,he] at hsame hnext
        cases hsame
        rw [hbind,hbind']
        exact (hf a).blind d' e' hnext
      · rw [hd,he] at hsame
        cases hsame
    · rcases bind_cases m f e with ⟨b,e',he,hbind'⟩ | ⟨y,e',he,hbind'⟩
      · rw [hd,he] at hsame
        cases hsame
      · rw [hd,he] at hsame hnext
        cases hsame
        rw [hbind,hbind']
        exact ⟨rfl,hnext⟩

private theorem tryCatch_cases (m : Fs ε α) (f : ε → Fs ε α) (d : Disk) :
    (∃ a d', m d = (.ok a,d') ∧ (tryCatch m f) d = (.ok a,d')) ∨ ∃ x d', m d = (.error x,d') ∧ (tryCatch m f) d = f x d' := by
  cases h : m d with
  | mk r d' =>
    cases r with
    | ok a => exact .inl ⟨a,d',rfl,by rw [Fs.tryCatch_apply,h]⟩
    | error x => exact .inr ⟨x,d',rfl,by rw [Fs.tryCatch_apply,h]⟩

theorem confined_tryCatch {m : Fs ε α} {f : ε → Fs ε α} (hm : Confined zone m) (hf : ∀ x, Confined zone (f x)) :
    Confined zone (tryCatch m f) := by
  constructor
  · intro d p hp
    have hfirst := hm.frame d p hp
    rcases tryCatch_cases m f d with ⟨a,d',hd,hcatch⟩ | ⟨x,d',hd,hcatch⟩
    · rw [hd] at hfirst
      rw [hcatch,hfirst]
    · rw [hd] at hfirst
      rw [hcatch,(hf x).frame d' p hp,hfirst]
  · intro d e hagree
    obtain ⟨hsame,hnext⟩ := hm.blind d e hagree
    rcases tryCatch_cases m f d with ⟨a,d',hd,hcatch⟩ | ⟨x,d',hd,hcatch⟩
    · rcases tryCatch_cases m f e with ⟨b,e',he,hcatch'⟩ | ⟨y,e',he,hcatch'⟩
      · rw [hd,he] at hsame hnext
        rw [hcatch,hcatch']
        exact ⟨hsame,hnext⟩
      · rw [hd,he] at hsame
        cases hsame
    · rcases tryCatch_cases m f e with ⟨b,e',he,hcatch'⟩ | ⟨y,e',he,hcatch'⟩
      · rw [hd,he] at hsame
        cases hsame
      · rw [hd,he] at hsame hnext
        cases hsame
        rw [hcatch,hcatch']
        exact (hf x).blind d' e' hnext

theorem confined_ask {f : Disk → Except ε α} (h : ∀ d e, AgreeOff zone d e → f d = f e) : Confined zone (Fs.ask f) :=
  ⟨fun _ _ _ => rfl,fun d e hagree => ⟨h d e hagree,hagree⟩⟩

/-- Two disks after a call. -/
def SameChange (zone : FilePath) (d : Disk) : Except ε Disk → Except ε Disk → Prop
  | .ok d',.ok e' => AgreeOff zone d' e' ∧ ∀ p, zone <+: p → d'.lookup p = d.lookup p
  | .error x,.error y => x = y
  | _,_ => False

theorem confined_change {f : Disk → Except ε Disk} (h : ∀ d e, AgreeOff zone d e → SameChange zone d (f d) (f e)) :
    Confined zone (Fs.change f) := by
  constructor
  · intro d p hp
    have hself := h d d fun _ _ => rfl
    rw [Fs.change]
    cases hd : f d with
    | ok d' =>
      rw [hd] at hself
      exact hself.2 p hp
    | error x => rfl
  · intro d e hagree
    have hboth := h d e hagree
    rw [Fs.change,Fs.change]
    cases hd : f d with
    | ok d' =>
      cases he : f e with
      | ok e' =>
        rw [hd,he] at hboth
        exact ⟨rfl,hboth.1⟩
      | error y =>
        rw [hd,he] at hboth
        exact hboth.elim
    | error x =>
      cases he : f e with
      | ok e' =>
        rw [hd,he] at hboth
        exact hboth.elim
      | error y =>
        rw [hd,he] at hboth
        exact ⟨congrArg Except.error hboth,hagree⟩

section Agreement
variable (h : AgreeOff zone d e)
include h

theorem AgreeOff.isDir_eq (hp : ¬zone <+: p) : isDir d p = isDir e p := by rw [isDir,isDir,h p hp]

theorem AgreeOff.fileAt_eq (hp : ¬zone <+: p) : fileAt d p = fileAt e p := by rw [fileAt,fileAt,h p hp]

theorem AgreeOff.blocked_eq (hp : ¬zone <+: p) : blocked d [] p = blocked e [] p := by
  have hway : ∀ done rest, done ++ rest = p → blocked d done rest = blocked e done rest := by
    intro done rest hrest
    induction rest generalizing done with
    | nil => rfl
    | cons name rest ih =>
      cases rest with
      | nil => rfl
      | cons next rest =>
        have hout : ¬zone <+: done ++ [name] := fun hin => hp (hin.trans ⟨next :: rest,by simpa using hrest⟩)
        rw [blocked,blocked,h.isDir_eq hout,notDir,notDir,h _ hout]
        split
        · exact ih (done ++ [name]) (by simpa using hrest)
        · rfl
  exact hway [] p rfl

theorem AgreeOff.openFile_eq (hp : ¬zone <+: p) : openFile d p = openFile e p := by
  rw [openFile,openFile,h.blocked_eq hp,h.isDir_eq hp,h.fileAt_eq hp]

theorem AgreeOff.stat_eq (hp : ¬zone <+: p) : stat d p = stat e p := by
  rw [stat,stat,h.blocked_eq hp,h.isDir_eq hp,h.fileAt_eq hp]

theorem AgreeOff.upsert (i : Inode) : AgreeOff zone (d.upsert i) (e.upsert i) := by
  intro q hq
  rw [Table.lookup_upsert,Table.lookup_upsert,h q hq]

theorem AgreeOff.delete (p : FilePath) : AgreeOff zone (d.deleteWhere fun i => i.path = p) (e.deleteWhere fun i => i.path = p) := by
  intro q hq
  rw [Table.lookup_deleteWhere,Table.lookup_deleteWhere,h q hq]

end Agreement

private theorem upsert_frame (hp : ¬zone <+: p) (content : Option (List UInt8)) (d : Disk) (hq : zone <+: q) :
    (d.upsert ⟨p,content⟩).lookup q = d.lookup q := by
  rw [Table.lookup_upsert,if_neg]
  rintro rfl
  exact hp hq

private theorem delete_frame (hp : ¬zone <+: p) (d : Disk) (hq : zone <+: q) :
    (d.deleteWhere fun i => i.path = p).lookup q = d.lookup q := by
  rw [Table.lookup_deleteWhere]
  cases hl : d.lookup q with
  | none => rfl
  | some i =>
    have hne : i.path ≠ p := by
      rw [Table.key_of_lookup hl]
      rintro rfl
      exact hp hq
    simp [Option.filter,hne]

theorem writeFile_same (hp : ¬zone <+: p) (content : List UInt8) (h : AgreeOff zone d e) :
    SameChange zone d (writeFile d p content) (writeFile e p content) := by
  rw [writeFile,writeFile,h.blocked_eq hp,h.isDir_eq hp]
  cases blocked e [] p with
  | some x => exact rfl
  | none =>
    cases isDir e p with
    | true => exact rfl
    | false => exact ⟨h.upsert _,fun q hq => upsert_frame hp _ d hq⟩

theorem unlink_same (hp : ¬zone <+: p) (h : AgreeOff zone d e) : SameChange zone d (unlink d p) (unlink e p) := by
  rw [unlink,unlink,h.openFile_eq hp]
  cases openFile e p with
  | error x => exact rfl
  | ok content => exact ⟨h.delete p,fun q hq => delete_frame hp d hq⟩

theorem rename_same (hp : ¬zone <+: p) (hq : ¬zone <+: q) (h : AgreeOff zone d e) :
    SameChange zone d (rename d p q) (rename e p q) := by
  rw [rename,rename,h.openFile_eq hp]
  cases openFile e p with
  | error x => exact rfl
  | ok content =>
    dsimp only
    split
    · exact ⟨h,fun _ _ => rfl⟩
    · have hwritten := writeFile_same hq content (h.delete p)
      cases hd : writeFile (d.deleteWhere fun i => i.path = p) q content with
      | error x =>
        cases he : writeFile (e.deleteWhere fun i => i.path = p) q content with
        | error y => rwa [hd,he] at hwritten
        | ok e' => rw [hd,he] at hwritten; exact hwritten.elim
      | ok d' =>
        cases he : writeFile (e.deleteWhere fun i => i.path = p) q content with
        | error y => rw [hd,he] at hwritten; exact hwritten.elim
        | ok e' =>
          rw [hd,he] at hwritten
          exact ⟨hwritten.1,fun r hr => (hwritten.2 r hr).trans (delete_frame hp d hr)⟩

theorem copyFile_same (hp : ¬zone <+: p) (hq : ¬zone <+: q) (h : AgreeOff zone d e) :
    SameChange zone d (copyFile d p q) (copyFile e p q) := by
  rw [copyFile,copyFile,h.openFile_eq hp]
  cases openFile e p with
  | error x => exact rfl
  | ok content =>
    dsimp only
    split
    · exact ⟨h,fun _ _ => rfl⟩
    · exact writeFile_same hq content h

theorem mkdir_same (hp : ¬zone <+: p) (h : AgreeOff zone d e) : SameChange zone d (mkdir d p) (mkdir e p) := by
  have hway : ∀ rest done d₀ e₀, done ++ rest = p → AgreeOff zone d₀ e₀ → (∀ q, zone <+: q → d₀.lookup q = d.lookup q) →
      SameChange zone d (mkdirFrom d₀ done rest) (mkdirFrom e₀ done rest) := by
    intro rest
    induction rest with
    | nil => exact fun done d₀ e₀ _ hagree hframe => ⟨hagree,hframe⟩
    | cons name rest ih =>
      intro done d₀ e₀ hrest hagree hframe
      have hout : ¬zone <+: done ++ [name] := fun hin => hp (hin.trans ⟨rest,by simpa using hrest⟩)
      rw [mkdirFrom,mkdirFrom,hagree.isDir_eq hout,hagree _ hout]
      split
      · exact ih _ _ _ (by simpa using hrest) hagree hframe
      · split
        · exact rfl
        · exact ih _ _ _ (by simpa using hrest) (hagree.upsert _) fun q hq => (upsert_frame hout _ d₀ hq).trans (hframe q hq)
  exact hway p [] d e rfl h fun _ _ => rfl

end Confinement

end JustMail.Foundation.FileSystem
