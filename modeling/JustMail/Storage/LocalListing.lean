import JustMail.Foundation.Runs
import JustMail.Storage.TenantPaths
import Mathlib.Algebra.Order.BigOperators.Group.List
import Mathlib.Algebra.Order.Group.Nat

/-! What `listPrefix` says of a directory that the adapter has worked in. -/
namespace JustMail.Storage.Local
open Foundation PosixPath FileSystem

section Model

structure LegalKey (key : JsString) : Prop where
  names : ∀ s ∈ key.splitOn slash, IsName s
  wellFormed : wellFormed key = true

/-- The disk, and the objects that the calls have reported as stored and not as deleted since. -/
structure LocalState where
  disk : Disk
  stored : Bucket

inductive LocalAction
  | put (key : JsString) (body : Body) (now : Nat) (random : RandomSuffix)
  | copy (source target : JsString)
  | delete (key : JsString)

variable (a : LocalAdapter)

def LocalState.call (s : LocalState) : LocalAction → LocalState
  | .put key body now random =>
    match a.putObject key body now random s.disk with
    | (.ok _,d) => ⟨d,s.stored.upsert ⟨key,body.bytes,none,none⟩⟩
    | (.error _,d) => ⟨d,s.stored⟩
  | .copy source target =>
    match a.copyObject source target s.disk with
    | (.ok _,d) => ⟨d,match s.stored.lookup source with
      | some o => s.stored.upsert { o with key := target }
      | none => s.stored⟩
    | (.error _,d) => ⟨d,s.stored⟩
  | .delete key =>
    match a.deleteObject key s.disk with
    | (.ok _,d) => ⟨d,s.stored.deleteWhere fun o => o.key = key⟩
    | (.error _,d) => ⟨d,s.stored⟩

def localStep (s : LocalState) (action : LocalAction) : Option LocalState := some (s.call a action)

/-- The staged file of a call. -/
def tmpPath (key : JsString) (now : Nat) (random : RandomSuffix) : JsString := join [dirname (a.path key),tmpName now random]

/-- Keys are legal, and no file has the name of a staged one. -/
def Legal (s : LocalState) : LocalAction → Prop
  | .put key _ now random => LegalKey key ∧ ∀ q, osPath (tmpPath a key now random) = .ok q → s.disk.fileAt q = none
  | .copy source target => LegalKey source ∧ LegalKey target
  | .delete key => LegalKey key

/-- A tree in which the root holds nothing, if it is there. -/
def EmptyRoot (d : Disk) : Prop :=
  Grown d ∧ ∀ q i, d.lookup q = some i → (rootNames a.cwd a.root).map utf8Bytes <+: q →
    q = (rootNames a.cwd a.root).map utf8Bytes ∧ i.content = none

/-- Slicing off the root and one unit more is slicing off the directory it stands for. -/
def RootSpelled : Prop :=
  a.root.length = if resolve a.cwd [a.root] = [slash] then 0 else (resolve a.cwd [a.root]).length

/-- The listing has every stored object once, under its key and with its size, and the object is
found under its key. -/
def ListingExact (order : ReaddirOrder) (s : LocalState) : Prop :=
  (∃ l, a.listPrefix order [] s.disk = .ok l ∧ l.Perm (s.stored.rows.map fun o => ⟨o.key,o.size⟩)) ∧
    ∀ o ∈ s.stored.rows, (a.getStream o.key none s.disk).1 = .ok o.body

end Model

section Keys
variable {a : LocalAdapter} {key key' : JsString} {names : List JsString}

def rootPath (a : LocalAdapter) : FilePath := (rootNames a.cwd a.root).map utf8Bytes
def place (a : LocalAdapter) (key : JsString) : FilePath := rootPath a ++ (key.splitOn slash).map utf8Bytes

private theorem wellFormed_splitOn {s : JsString} (hs : wellFormed s = true) : ∀ p ∈ s.splitOn slash, wellFormed p = true := by
  have hslash : isHigh slash = false ∧ isLow slash = false := by decide
  have hjoin : ∀ parts : List JsString, wellFormed ([slash].intercalate parts) = true → ∀ p ∈ parts, wellFormed p = true := by
    intro parts
    induction parts with
    | nil => exact fun _ p hp => absurd hp List.not_mem_nil
    | cons q parts ih =>
      intro h
      by_cases hne : parts = []
      · subst hne
        rw [List.intercalate_singleton] at h
        simpa using h
      · rw [List.intercalate_cons_of_ne_nil hne,List.append_assoc,List.singleton_append,wellFormed_append_plain hslash.1 hslash.2,
          Bool.and_eq_true] at h
        rw [List.forall_mem_cons]
        exact ⟨h.1,ih h.2⟩
  exact hjoin _ (by rwa [List.intercalate_splitOn])

/-- A name that the file system gives back as it was. -/
def IsText (name : JsString) : Prop := IsName name ∧ decodeLossy (utf8Bytes name) = name

theorem LegalKey.isText (h : LegalKey key) : ∀ s ∈ key.splitOn slash, IsText s := fun s hs =>
  ⟨h.names s hs,decodeLossy_utf8Bytes_wellFormed (wellFormed_splitOn h.wellFormed s hs)⟩

theorem map_utf8Bytes_injective {names' : List JsString} (h : ∀ s ∈ names, IsText s) (h' : ∀ s ∈ names', IsText s)
    (heq : names.map utf8Bytes = names'.map utf8Bytes) : names = names' := by
  have hback : ∀ {l : List JsString}, (∀ s ∈ l, IsText s) → (l.map utf8Bytes).map decodeLossy = l := by
    intro l hl
    rw [List.map_map]
    exact (List.map_congr_left fun s hs => (hl s hs).2).trans (List.map_id l)
  rw [← hback h,← hback h',heq]

theorem place_injective (h : LegalKey key) (h' : LegalKey key') (heq : place a key = place a key') : key = key' := by
  have hnames := map_utf8Bytes_injective h.isText h'.isText (List.append_cancel_left heq)
  have hjoin : ∀ k : JsString, [slash].intercalate (k.splitOn slash) = k := fun _ => List.intercalate_splitOn slash
  rw [← hjoin key,← hjoin key',hnames]

/-- The path of a legal key, its directory and its last name. -/
theorem path_legal (a : LocalAdapter) (h : LegalKey key) : a.path key = render (rootNames a.cwd a.root ++ key.splitOn slash) := by
  have hfirst : key.dropWhile (· = slash) = key := by
    cases key with
    | nil => rfl
    | cons c s =>
      refine List.dropWhile_cons_of_neg fun hc => ?_
      obtain rfl : c = slash := of_decide_eq_true hc
      have hsplit : (slash :: s).splitOn slash = [] :: s.splitOn slash :=
        List.splitOn_append_cons_self_of_not_mem List.not_mem_nil s
      have hempty := h.names [] (by rw [hsplit]; exact List.mem_cons_self)
      exact hempty.1 rfl
  have hfilter : (key.splitOn slash).filter (fun p => p ≠ [] ∧ p ≠ dotdot) = key.splitOn slash := by
    rw [List.filter_eq_self]
    exact fun p hp => decide_eq_true ⟨(h.names p hp).1,(h.names p hp).2.2.1⟩
  have hdots : (key.splitOn slash).filter (· ≠ dot) = key.splitOn slash := by
    rw [List.filter_eq_self]
    exact fun p hp => decide_eq_true (h.names p hp).2.1
  rw [LocalAdapter.path,hfirst,hfilter,resolve_below a.cwd_absolute fun s hs => ⟨(h.names s hs).1,(h.names s hs).2.2⟩,hdots]

theorem splitOn_snoc (key : JsString) : ∃ init last, key.splitOn slash = init ++ [last] := by
  obtain ⟨init,last,h⟩ := List.eq_nil_or_concat (key.splitOn slash) |>.resolve_left (List.splitOn_ne_nil slash key)
  exact ⟨init,last,by rw [h,List.concat_eq_append]⟩

/-- The names on the way to a key from the root of the file system, and those of its directory. -/
def keyNames (a : LocalAdapter) (key : JsString) : List JsString := rootNames a.cwd a.root ++ key.splitOn slash
def dirNames (a : LocalAdapter) (key : JsString) : List JsString := rootNames a.cwd a.root ++ (key.splitOn slash).dropLast

theorem keyNames_place (a : LocalAdapter) (key : JsString) : (keyNames a key).map utf8Bytes = place a key := List.map_append

theorem keyNames_names (h : LegalKey key) : ∀ s ∈ keyNames a key, IsName s := fun s hs =>
  (List.mem_append.mp hs).elim (rootNames_names _ _ s) (h.names s)

theorem dirNames_names (h : LegalKey key) : ∀ s ∈ dirNames a key, IsName s := fun s hs =>
  (List.mem_append.mp hs).elim (rootNames_names _ _ s) fun hs => h.names s (List.mem_of_mem_dropLast hs)

theorem dirname_path (h : LegalKey key) : dirname (a.path key) = render (dirNames a key) := by
  obtain ⟨init,last,hsplit⟩ := splitOn_snoc key
  have hinit : dirNames a key = rootNames a.cwd a.root ++ init := by rw [dirNames,hsplit,List.dropLast_concat]
  have hlast : IsName last := h.names last (by rw [hsplit]; simp)
  rw [path_legal a h,hsplit,← List.append_assoc,dirname_render (by rw [← hinit]; exact dirNames_names h) hlast,hinit]

theorem tmpPath_legal (h : LegalKey key) (now : Nat) (random : RandomSuffix) :
    tmpPath a key now random = render (dirNames a key ++ [tmpName now random]) := by
  rw [tmpPath,dirname_path h,join_render (dirNames_names h) (tmp_name now random)]

/-- A path has a NUL where a name has one. -/
theorem zero_mem_render : 0 ∈ render names ↔ ∃ s ∈ names, 0 ∈ s := by
  have hslash : (0 : CodeUnit) ≠ slash := by decide
  have hjoin : 0 ∈ [slash].intercalate names ↔ ∃ s ∈ names, 0 ∈ s := by
    induction names with
    | nil => simp
    | cons s names ih =>
      by_cases hne : names = []
      · subst hne
        simp
      · rw [List.intercalate_cons_of_ne_nil hne,List.append_assoc,List.mem_append,List.singleton_append,List.mem_cons,ih]
        simp [hslash]
  rw [render,List.mem_cons,hjoin]
  simp [hslash]

theorem tmp_noNul (now : Nat) (random : RandomSuffix) : 0 ∉ tmpName now random := fun h => by
  have hno := tmp_units now random 0 h
  exact absurd hno (by decide)

end Keys
section Effects
variable {a : LocalAdapter} {key : JsString} {names names' way : List JsString} {d d' d₁ d₂ : Disk} {r : Except LocalError Unit}
  {content : Bytes} {files : FilePath → Option Bytes}
open Disk

/-- What a call does to a tree: its files, and directories on the way to a path. -/
structure Effect (d d' : Disk) (way : List JsString) (files : FilePath → Option Bytes) : Prop where
  grown : Grown d'
  isDir_of : ∀ q, isDir d' q = true → isDir d q = true ∨ 0 ∉ render way ∧ q <+: way.map utf8Bytes
  fileAt_eq : ∀ q, fileAt d' q = files q

theorem Effect.refl (hd : Grown d) : Effect d d way (fileAt d) := ⟨hd,fun _ => .inl,fun _ => rfl⟩

private theorem change_cases {f : FilePath → Disk → Except Errno Disk} (hnames : ∀ s ∈ names, IsName s)
    (h : withPath (render names) (fun q => Fs.change fun d => lift (f q d)) d = (r,d')) :
    ((∃ e, r = .error e) ∧ d' = d ∧
        (r = .error .invalidArg ∨ ∃ e, f (names.map utf8Bytes) d = .error e ∧ r = .error (.errno e))) ∨
      r = .ok () ∧ f (names.map utf8Bytes) d = .ok d' ∧ 0 ∉ render names := by
  rw [withPath,osPath] at h
  by_cases hnul : 0 ∈ render names
  · rw [if_pos hnul] at h
    cases h
    exact .inl ⟨⟨_,rfl⟩,rfl,.inl rfl⟩
  · rw [if_neg hnul,keptSegments_render hnames] at h
    change Fs.change _ d = _ at h
    rw [Fs.change] at h
    cases hf : f (names.map utf8Bytes) d with
    | error e =>
      rw [hf] at h
      cases h
      exact .inl ⟨⟨_,rfl⟩,rfl,.inr ⟨e,rfl,rfl⟩⟩
    | ok d₁ =>
      rw [hf] at h
      cases h
      exact .inr ⟨rfl,rfl,hnul⟩

/-- The call of two paths, whichever of them is wrong. -/
private theorem change_cases₂ {f : FilePath → FilePath → Disk → Except Errno Disk} (hnames : ∀ s ∈ names, IsName s)
    (hnames' : ∀ s ∈ names', IsName s)
    (h : withPath (render names) (fun q => withPath (render names') fun q' => Fs.change fun d => lift (f q q' d)) d = (r,d')) :
    ((∃ e, r = .error e) ∧ d' = d) ∨
      r = .ok () ∧ f (names.map utf8Bytes) (names'.map utf8Bytes) d = .ok d' ∧ 0 ∉ render names' := by
  rw [withPath,osPath] at h
  by_cases hnul : 0 ∈ render names
  · rw [if_pos hnul] at h
    cases h
    exact .inl ⟨⟨_,rfl⟩,rfl⟩
  · rw [if_neg hnul,keptSegments_render hnames] at h
    rcases change_cases (f := fun q' d => f (names.map utf8Bytes) q' d) hnames' h with ⟨he,hd,-⟩ | hdone
    · exact .inl ⟨he,hd⟩
    · exact .inr hdone

/-- The staged file goes away again. -/
private theorem unlink_staged (hd : Grown d) (hnames : ∀ s ∈ names, IsName s) (hnul : 0 ∉ render names)
    (hfile : fileAt d (names.map utf8Bytes) = some content) :
    ∃ d', fsUnlink (render names) d = (.ok (),d') ∧ Refiled d d' fun q => if q = names.map utf8Bytes then none else fileAt d q := by
  have hunlink : unlink d (names.map utf8Bytes) = .ok (d.deleteWhere fun i => i.path = names.map utf8Bytes) := by
    rw [unlink,hd.openFile_of_fileAt hfile]
    rfl
  refine ⟨_,?_,unlink_refiled hd hunlink⟩
  rw [fsUnlink,withPath,osPath,if_neg hnul,keptSegments_render hnames]
  change Fs.change _ d = _
  rw [Fs.change,hunlink]
  rfl

/-- A failed call has left no file behind. -/
private theorem discard {e : LocalError} {tmp : List JsString} (hd : Grown d) (hnames : ∀ s ∈ tmp, IsName s) (hnul : 0 ∉ render tmp)
    (hfile : fileAt d (tmp.map utf8Bytes) = some content) :
    ∃ d', (do tryCatch (fsUnlink (render tmp)) fun _ => pure ()
              throw e : Fs LocalError Unit) d = (.error e,d') ∧
      Refiled d d' fun q => if q = tmp.map utf8Bytes then none else fileAt d q := by
  obtain ⟨d',hunlink,hrefiled⟩ := unlink_staged hd hnames hnul hfile
  refine ⟨d',?_,hrefiled⟩
  rw [Fs.bind_apply,Fs.tryCatch_apply,hunlink]
  rfl

/-- There is nothing to take away where no file was staged. -/
private theorem unlink_free (hnames : ∀ s ∈ names, IsName s) (hfree : fileAt d (names.map utf8Bytes) = none) :
    (tryCatch (fsUnlink (render names)) fun _ => pure () : Fs LocalError Unit) d = (.ok (),d) := by
  rw [Fs.tryCatch_apply]
  cases hunlink : fsUnlink (render names) d with
  | mk r d' =>
  rcases change_cases (f := fun q d => d.unlink q) hnames hunlink with ⟨⟨e,rfl⟩,rfl,-⟩ | ⟨rfl,hgone,-⟩
  · rfl
  · rw [unlink] at hgone
    cases hopen : openFile d (names.map utf8Bytes) with
    | error e =>
      rw [hopen] at hgone
      cases hgone
    | ok content => cases hfree.symm.trans (openFile_eq_ok hopen).1

/-- What a failure leaves once the file was staged. -/
private theorem staged_discarded {body : Body} {e : LocalError} {tmp target : List JsString}
    (htmp : ∀ s ∈ tmp, IsName s) (hnul : 0 ∉ render tmp)
    (hfree : fileAt d (tmp.map utf8Bytes) = none)
    (hwritten : Refiled d d₁ fun q => if q = tmp.map utf8Bytes then some body.bytes else fileAt d q)
    (hpipe : (do pipeline body (render tmp); fsRename (render tmp) (render target) : Fs LocalError Unit) d = (.error e,d₁)) :
    ∃ d', (tryCatch (do
        pipeline body (render tmp)
        fsRename (render tmp) (render target)) fun err => do
          tryCatch (fsUnlink (render tmp)) fun _ => pure ()
          throw err : Fs LocalError Unit) d = (.error e,d') ∧ Refiled d d' (fileAt d) := by
  have hfile : fileAt d₁ (tmp.map utf8Bytes) = some body.bytes := (hwritten.fileAt_eq _).trans (if_pos rfl)
  obtain ⟨d',hdiscard,hback⟩ := discard (e := e) hwritten.grown htmp hnul hfile
  refine ⟨d',?_,hback.grown,fun q => (hback.isDir_eq q).trans (hwritten.isDir_eq q),fun q => ?_⟩
  · rw [Fs.tryCatch_apply,hpipe]
    exact hdiscard
  · rw [hback.fileAt_eq,hwritten.fileAt_eq]
    split
    · rename_i hq
      rw [hq,hfree]
    · rfl

private theorem staged_moved {bytes : Bytes} {p q : FilePath} (hfree : fileAt d p = none)
    (hwritten : Refiled d d₁ fun r => if r = p then some bytes else fileAt d r) (hmoved : d₁.rename p q = .ok d₂) :
    Refiled d d₂ fun r => if r = q then some bytes else fileAt d r := by
  have hfile : fileAt d₁ p = some bytes := (hwritten.fileAt_eq _).trans (if_pos rfl)
  by_cases hsame : p = q
  · rw [rename,hwritten.grown.openFile_of_fileAt hfile] at hmoved
    dsimp only at hmoved
    rw [if_pos hsame] at hmoved
    cases hmoved
    rw [← hsame]
    exact hwritten
  · obtain ⟨content,hcontent,hmove⟩ := rename_refiled hwritten.grown hsame hmoved
    obtain rfl : bytes = content := Option.some.inj (hfile.symm.trans hcontent)
    refine ⟨hmove.grown,fun r => (hmove.isDir_eq r).trans (hwritten.isDir_eq r),fun r => ?_⟩
    rw [hmove.fileAt_eq]
    split
    · rfl
    · split
      · rename_i hr
        rw [hr,hfree]
      · rename_i hr
        rw [hwritten.fileAt_eq,if_neg hr]

/-- The staged write: the target has the body, or nothing is left of it. -/
private theorem staged_effect (body : Body) {tmp target : List JsString} (hd : Grown d) (htmp : ∀ s ∈ tmp, IsName s)
    (htarget : ∀ s ∈ target, IsName s) (hfree : fileAt d (tmp.map utf8Bytes) = none) :
    ∃ r d', (tryCatch (do
        pipeline body (render tmp)
        fsRename (render tmp) (render target)) fun err => do
          tryCatch (fsUnlink (render tmp)) fun _ => pure ()
          throw err : Fs LocalError Unit) d = (r,d') ∧
      ((∃ e, r = .error e) ∧ Refiled d d' (fileAt d) ∨
        r = .ok () ∧ 0 ∉ render target ∧ Refiled d d' fun q => if q = target.map utf8Bytes then some body.bytes else fileAt d q) := by
  cases hwrite : fsWrite (render tmp) body.bytes d with
  | mk r₁ d₁ =>
  rcases change_cases (f := fun q d => d.writeFile q body.bytes) htmp hwrite with ⟨⟨e,rfl⟩,rfl,-⟩ | ⟨rfl,hwritten,hnul⟩
  · have hpipe : (do pipeline body (render tmp); fsRename (render tmp) (render target) : Fs LocalError Unit) d₁ = (.error e,d₁) := by
      rw [Fs.bind_apply,pipeline,Fs.bind_apply,hwrite]
    refine ⟨.error e,d₁,?_,.inl ⟨⟨e,rfl⟩,hd,fun _ => rfl,fun _ => rfl⟩⟩
    rw [Fs.tryCatch_apply,hpipe]
    dsimp only
    rw [Fs.bind_apply,unlink_free htmp hfree]
    rfl
  · have hrefiled := writeFile_refiled hd hwritten
    have hpipe : (do pipeline body (render tmp); fsRename (render tmp) (render target) : Fs LocalError Unit) d =
        if body.complete = true then fsRename (render tmp) (render target) d₁ else (.error .aborted,d₁) := by
      rw [Fs.bind_apply,pipeline,Fs.bind_apply,hwrite]
      cases body.complete <;> rfl
    cases hcomplete : body.complete with
    | false =>
      rw [hcomplete] at hpipe
      obtain ⟨d',hdone,hback⟩ := staged_discarded htmp hnul hfree hrefiled hpipe
      exact ⟨.error .aborted,d',hdone,.inl ⟨⟨_,rfl⟩,hback⟩⟩
    | true =>
      rw [hcomplete,if_pos rfl] at hpipe
      cases hrename : fsRename (render tmp) (render target) d₁ with
      | mk r₂ d₂ =>
      rw [hrename] at hpipe
      rcases change_cases₂ (f := fun q q' d => d.rename q q') htmp htarget hrename with ⟨⟨e,rfl⟩,rfl⟩ | ⟨rfl,hmoved,hnul'⟩
      · obtain ⟨d',hdone,hback⟩ := staged_discarded htmp hnul hfree hrefiled hpipe
        exact ⟨.error e,d',hdone,.inl ⟨⟨e,rfl⟩,hback⟩⟩
      · refine ⟨.ok (),d₂,?_,.inr ⟨rfl,hnul',staged_moved hfree hrefiled hmoved⟩⟩
        rw [Fs.tryCatch_apply,hpipe]

private theorem fsMkdir_effect (hd : Grown d) (hway : ∀ s ∈ way, IsName s) :
    ∃ d', (∃ e, fsMkdir (render way) d = (.error e,d') ∧ d' = d) ∨
      fsMkdir (render way) d = (.ok (),d') ∧ 0 ∉ render way ∧ Widened d d' (way.map utf8Bytes) := by
  cases hmkdir : fsMkdir (render way) d with
  | mk r d' =>
  rcases change_cases (f := fun q d => d.mkdir q) hway hmkdir with ⟨⟨e,rfl⟩,hd',-⟩ | ⟨rfl,hmade,hnul⟩
  · exact ⟨d',.inl ⟨e,rfl,hd'⟩⟩
  · exact ⟨d',.inr ⟨rfl,hnul,mkdir_widened hd hmade⟩⟩

/-- Files written in directories that have been made. -/
private theorem Effect.of_widened {d₁ : Disk} (hwide : Widened d d₁ (way.map utf8Bytes)) (hnul : 0 ∉ render way)
    (hfiles : Refiled d₁ d' files) : Effect d d' way files := by
  refine ⟨hfiles.grown,fun q hq => ?_,hfiles.fileAt_eq⟩
  rw [hfiles.isDir_eq] at hq
  exact ((hwide.isDir_iff q).mp hq).imp_right fun hpre => ⟨hnul,hpre⟩

theorem putObject_effect (body : Body) {now : Nat} {random : RandomSuffix} (hd : Grown d) (hkey : LegalKey key)
    (hfree : ∀ q, osPath (tmpPath a key now random) = .ok q → fileAt d q = none) :
    ∃ d', (∃ e, a.putObject key body now random d = (.error e,d') ∧ Effect d d' (dirNames a key) (fileAt d)) ∨
      ∃ e, a.putObject key body now random d = (.ok e,d') ∧ 0 ∉ render (keyNames a key) ∧
        Effect d d' (dirNames a key) fun q => if q = place a key then some body.bytes else fileAt d q := by
  have hdir := dirNames_names (a := a) hkey
  have htmp : ∀ s ∈ dirNames a key ++ [tmpName now random], IsName s := fun s hs =>
    (List.mem_append.mp hs).elim (hdir s) fun hs => List.mem_singleton.mp hs ▸ tmp_name now random
  rw [LocalAdapter.putObject]
  dsimp only
  rw [dirname_path hkey,join_render hdir (tmp_name now random),show a.path key = render (keyNames a key) from path_legal a hkey]
  obtain ⟨d₁,⟨e,hmkdir,rfl⟩ | ⟨hmkdir,hnul,hwide⟩⟩ := fsMkdir_effect hd hdir
  · refine ⟨d₁,.inl ⟨e,?_,.refl hd⟩⟩
    rw [Fs.bind_apply,hmkdir]
  · have hsame : fileAt d₁ = fileAt d := funext hwide.fileAt_eq
    have hpath : osPath (tmpPath a key now random) = .ok ((dirNames a key ++ [tmpName now random]).map utf8Bytes) := by
      rw [tmpPath_legal hkey]
      refine osPath_ok htmp ?_
      rw [zero_mem_render,not_exists] at hnul ⊢
      rintro s ⟨hs,hzero⟩
      rcases List.mem_append.mp hs with hs | hs
      · exact hnul s ⟨hs,hzero⟩
      · rw [List.mem_singleton.mp hs] at hzero
        exact tmp_noNul now random hzero
    have hnone : fileAt d₁ ((dirNames a key ++ [tmpName now random]).map utf8Bytes) = none := by
      rw [hsame,hfree _ hpath]
    obtain ⟨r,d₂,hstaged,hcases⟩ := staged_effect body hwide.grown htmp (keyNames_names (a := a) hkey) hnone
    rw [hsame,keyNames_place] at hcases
    rcases hcases with ⟨⟨e,rfl⟩,hfiles⟩ | ⟨rfl,hnul',hfiles⟩
    · refine ⟨d₂,.inl ⟨e,?_,.of_widened hwide hnul hfiles⟩⟩
      rw [Fs.bind_apply,hmkdir]
      dsimp only
      rw [Fs.bind_apply,hstaged]
    · refine ⟨d₂,.inr ⟨⟨a.sha256 body.bytes,key,body.bytes.length⟩,?_,hnul',.of_widened hwide hnul hfiles⟩⟩
      rw [Fs.bind_apply,hmkdir]
      dsimp only
      rw [Fs.bind_apply,hstaged]
      rfl

theorem copyObject_effect {source target : JsString} (hd : Grown d) (hsource : LegalKey source) (htarget : LegalKey target) :
    ∃ d', (∃ e, a.copyObject source target d = (.error e,d') ∧ Effect d d' (dirNames a target) (fileAt d)) ∨
      ∃ content, a.copyObject source target d = (.ok (),d') ∧ 0 ∉ render (keyNames a target) ∧ fileAt d (place a source) = some content ∧
        Effect d d' (dirNames a target) fun q => if q = place a target then some content else fileAt d q := by
  have hdir := dirNames_names (a := a) htarget
  rw [LocalAdapter.copyObject,dirname_path htarget,show a.path source = render (keyNames a source) from path_legal a hsource,
    show a.path target = render (keyNames a target) from path_legal a htarget]
  obtain ⟨d₁,⟨e,hmkdir,rfl⟩ | ⟨hmkdir,hnul,hwide⟩⟩ := fsMkdir_effect hd hdir
  · refine ⟨d₁,.inl ⟨e,?_,.refl hd⟩⟩
    rw [Fs.bind_apply,hmkdir]
  · have hsame : fileAt d₁ = fileAt d := funext hwide.fileAt_eq
    rw [Fs.bind_apply,hmkdir]
    dsimp only
    cases hcopy : fsCopyFile (render (keyNames a source)) (render (keyNames a target)) d₁ with
    | mk r d₂ =>
    rcases change_cases₂ (f := fun q q' d => d.copyFile q q') (keyNames_names hsource) (keyNames_names htarget) hcopy with
      ⟨⟨e,rfl⟩,rfl⟩ | ⟨rfl,hcopied,hnul'⟩
    · exact ⟨d₂,.inl ⟨e,rfl,.of_widened hwide hnul ⟨hwide.grown,fun _ => rfl,fun q => hwide.fileAt_eq q⟩⟩⟩
    · obtain ⟨content,hcontent,hfiles⟩ := copyFile_refiled hwide.grown hcopied
      rw [hsame,keyNames_place] at hcontent
      rw [hsame,keyNames_place] at hfiles
      exact ⟨d₂,.inr ⟨content,rfl,hnul',hcontent,.of_widened hwide hnul hfiles⟩⟩

/-- After a deletion there is no file, also if there was none before. -/
theorem deleteObject_effect (hd : Grown d) (hkey : LegalKey key) :
    ∃ d', (∃ e, a.deleteObject key d = (.error e,d') ∧ d' = d) ∨
      a.deleteObject key d = (.ok (),d') ∧ Refiled d d' fun q => if q = place a key then none else fileAt d q := by
  rw [LocalAdapter.deleteObject,show a.path key = render (keyNames a key) from path_legal a hkey,Fs.tryCatch_apply]
  cases hunlink : fsUnlink (render (keyNames a key)) d with
  | mk r d₁ =>
  rcases change_cases (f := fun q d => d.unlink q) (keyNames_names hkey) hunlink with ⟨-,rfl,rfl | ⟨x,hfailed,rfl⟩⟩ | ⟨rfl,hgone,-⟩
  · exact ⟨d₁,.inl ⟨.invalidArg,rfl,rfl⟩⟩
  · by_cases hx : x = .ENOENT
    · subst hx
      refine ⟨d₁,.inr ⟨rfl,hd,fun _ => rfl,fun q => ?_⟩⟩
      split
      · rename_i hq
        cases hfile : fileAt d₁ q with
        | none => rfl
        | some content =>
          rw [keyNames_place,← hq,unlink,hd.openFile_of_fileAt hfile] at hfailed
          cases hfailed
      · rfl
    · refine ⟨d₁,.inl ⟨.errno x,?_,rfl⟩⟩
      dsimp only
      rw [if_neg fun h => hx (LocalError.errno.inj h)]
      rfl
  · rw [keyNames_place] at hgone
    exact ⟨d₁,.inr ⟨rfl,unlink_refiled hd hgone⟩⟩

end Effects

section Invariant
variable {a : LocalAdapter} {key : JsString} {s t : LocalState} {d' : Disk} {action : LocalAction}
open Disk

/-- The disk has the stored objects at their places, and below the root nothing else but directories of them. -/
structure ListInv (a : LocalAdapter) (s : LocalState) : Prop where
  grown : Grown s.disk
  legal : ∀ key o, s.stored.lookup key = some o → LegalKey key ∧ 0 ∉ render (keyNames a key)
  bodies : ∀ key, LegalKey key → fileAt s.disk (place a key) = (s.stored.lookup key).map (·.body)
  places : ∀ q content, rootPath a <+: q → fileAt s.disk q = some content → ∃ key, LegalKey key ∧ q = place a key
  dirs : ∀ q, isDir s.disk q = true → rootPath a <+: q →
    ∃ names, (∀ n ∈ names, IsText n) ∧ (names ≠ [] → 0 ∉ render (rootNames a.cwd a.root ++ names)) ∧ q = rootPath a ++ names.map utf8Bytes

theorem listInv_initial {d : Disk} (h : EmptyRoot a d) : ListInv a ⟨d,.empty⟩ where
  grown := h.1
  legal _ _ ho := by cases ho
  bodies key _ := by
    have hnone : fileAt d (place a key) = none := by
      rw [Option.eq_none_iff_forall_ne_some]
      intro content hfile
      obtain ⟨i,hi,hc⟩ := fileAt_eq_some.mp hfile
      rw [(h.2 _ i hi (List.prefix_append _ _)).2] at hc
      cases hc
    rw [hnone]
    rfl
  places q content hq hfile := by
    obtain ⟨i,hi,hc⟩ := fileAt_eq_some.mp hfile
    rw [(h.2 q i hi hq).2] at hc
    cases hc
  dirs q hdir hq := by
    have hroot : q = rootPath a := by
      by_cases hne : q = []
      · subst hne
        exact (List.prefix_nil.mp hq).symm
      · obtain ⟨i,hi,-⟩ := (isDir_iff hne).mp hdir
        exact (h.2 q i hi hq).1
    exact ⟨[],fun _ hn => absurd hn List.not_mem_nil,fun h => absurd rfl h,by rw [hroot,List.map_nil,List.append_nil]⟩

private theorem dirs_of_effect {files : FilePath → Option Bytes} (hs : ListInv a s) (hkey : LegalKey key)
    (he : Effect s.disk d' (dirNames a key) files) : ∀ q, isDir d' q = true → rootPath a <+: q →
    ∃ names, (∀ n ∈ names, IsText n) ∧ (names ≠ [] → 0 ∉ render (rootNames a.cwd a.root ++ names)) ∧
      q = rootPath a ++ names.map utf8Bytes := by
  intro q hdir hq
  rcases he.isDir_of q hdir with hold | ⟨hnul,hpre⟩
  · exact hs.dirs q hold hq
  · obtain ⟨rest,rfl⟩ := hq
    rw [dirNames,List.map_append] at hpre
    obtain ⟨names,hnames,rfl⟩ := List.prefix_map_iff.mp ((List.prefix_append_right_inj _).mp hpre)
    refine ⟨names,fun n hn => hkey.isText n (List.mem_of_mem_dropLast (hnames.subset hn)),fun _ => ?_,rfl⟩
    rw [zero_mem_render] at hnul ⊢
    rintro ⟨n,hn,hzero⟩
    refine hnul ⟨n,?_,hzero⟩
    rcases List.mem_append.mp hn with hn | hn
    · exact List.mem_append_left _ hn
    · exact List.mem_append_right _ (hnames.subset hn)

private theorem ListInv.unchanged (hs : ListInv a s) (hkey : LegalKey key) (he : Effect s.disk d' (dirNames a key) (fileAt s.disk)) :
    ListInv a ⟨d',s.stored⟩ where
  grown := he.grown
  legal := hs.legal
  bodies k hk := (he.fileAt_eq _).trans (hs.bodies k hk)
  places q content hq hfile := hs.places q content hq ((he.fileAt_eq q).symm.trans hfile)
  dirs := dirs_of_effect hs hkey he

private theorem ListInv.upsert {o : StorageObject} (hs : ListInv a s) (hkey : LegalKey o.key) (hnul : 0 ∉ render (keyNames a o.key))
    (he : Effect s.disk d' (dirNames a o.key) fun q => if q = place a o.key then some o.body else fileAt s.disk q) :
    ListInv a ⟨d',s.stored.upsert o⟩ where
  grown := he.grown
  legal k o' ho := by
    dsimp only at ho
    rw [Table.lookup_upsert] at ho
    split at ho
    · rename_i hk
      rw [hk]
      exact ⟨hkey,hnul⟩
    · exact hs.legal k o' ho
  bodies k hk := by
    dsimp only
    rw [he.fileAt_eq,Table.lookup_upsert]
    by_cases hsame : k = o.key
    · rw [hsame,if_pos rfl,if_pos rfl]
      rfl
    · rw [if_neg fun h => hsame (place_injective hk hkey h),if_neg hsame,hs.bodies k hk]
  places q content hq hfile := by
    rw [he.fileAt_eq] at hfile
    split at hfile
    · rename_i hplace
      exact ⟨o.key,hkey,hplace⟩
    · exact hs.places q content hq hfile
  dirs := dirs_of_effect hs hkey he

private theorem ListInv.delete (hs : ListInv a s) (hkey : LegalKey key)
    (he : Refiled s.disk d' fun q => if q = place a key then none else fileAt s.disk q) :
    ListInv a ⟨d',s.stored.deleteWhere fun o => o.key = key⟩ where
  grown := he.grown
  legal k o ho := by
    dsimp only at ho
    rw [Table.lookup_deleteWhere] at ho
    exact hs.legal k o (Option.filter_eq_some_iff.mp ho).1
  bodies k hk := by
    dsimp only
    rw [he.fileAt_eq,Table.lookup_deleteWhere]
    by_cases hsame : k = key
    · subst hsame
      rw [if_pos rfl]
      cases ho : s.stored.lookup k with
      | none => rfl
      | some o => simp [Option.filter,Table.key_of_lookup ho]
    · rw [if_neg fun h => hsame (place_injective hk hkey h),hs.bodies k hk]
      cases ho : s.stored.lookup k with
      | none => rfl
      | some o => simp [Option.filter,Table.key_of_lookup ho,hsame]
  places q content hq hfile := by
    rw [he.fileAt_eq] at hfile
    split at hfile
    · cases hfile
    · exact hs.places q content hq hfile
  dirs q hdir hq := hs.dirs q ((he.isDir_eq q).symm.trans hdir) hq

theorem listInv_call (hs : ListInv a s) (hlegal : Legal a s action) : ListInv a (s.call a action) := by
  cases action with
  | put key body now random =>
    obtain ⟨hkey,hfree⟩ := hlegal
    rw [LocalState.call]
    obtain ⟨d',⟨e,hput,he⟩ | ⟨e,hput,hnul,he⟩⟩ := putObject_effect body hs.grown hkey hfree
    · rw [hput]
      exact hs.unchanged hkey he
    · rw [hput]
      exact hs.upsert hkey hnul he
  | copy source target =>
    obtain ⟨hsource,htarget⟩ := hlegal
    rw [LocalState.call]
    obtain ⟨d',⟨e,hcopy,he⟩ | ⟨content,hcopy,hnul,hcontent,he⟩⟩ := copyObject_effect hs.grown hsource htarget
    · rw [hcopy]
      exact hs.unchanged htarget he
    · rw [hcopy]
      rw [hs.bodies source hsource] at hcontent
      obtain ⟨o,ho,rfl⟩ := Option.map_eq_some_iff.mp hcontent
      dsimp only
      rw [ho]
      exact hs.upsert htarget hnul he
  | delete key =>
    rw [LocalState.call]
    obtain ⟨d',⟨e,hdelete,rfl⟩ | ⟨hdelete,he⟩⟩ := deleteObject_effect (a := a) hs.grown hlegal
    · rw [hdelete]
      exact hs
    · rw [hdelete]
      exact hs.delete hlegal he

theorem listInv_run {d : Disk} (h : EmptyRoot a d) (hrun : Run (localStep a) (Legal a) ⟨d,.empty⟩ s) : ListInv a s := by
  refine hrun.invariant (fun s action t hs hlegal hstep => ?_) (listInv_initial h)
  cases hstep
  exact listInv_call hs hlegal

end Invariant

section Listing
variable {a : LocalAdapter} {order : ReaddirOrder} {s : LocalState} {names : List JsString} {key : JsString} {o : StorageObject}
open Disk

/-- What is below the root has names that come back. -/
theorem ListInv.names_of_lookup (hs : ListInv a s) {rest : FilePath} {i : Inode} (h : s.disk.lookup (rootPath a ++ rest) = some i)
    (hne : rest ≠ []) :
    ∃ names, (∀ n ∈ names, IsText n) ∧ 0 ∉ render (rootNames a.cwd a.root ++ names) ∧ rest = names.map utf8Bytes := by
  cases hc : i.content with
  | none =>
    have hdir : isDir s.disk (rootPath a ++ rest) = true := (isDir_iff (by simp [hne])).mpr ⟨i,h,hc⟩
    obtain ⟨names,htext,hnul,heq⟩ := hs.dirs _ hdir (List.prefix_append _ _)
    obtain rfl := List.append_cancel_left heq
    refine ⟨names,htext,hnul ?_,rfl⟩
    rintro rfl
    exact hne rfl
  | some content =>
    have hfile := fileAt_eq_some.mpr ⟨i,h,hc⟩
    obtain ⟨key,hkey,heq⟩ := hs.places _ content (List.prefix_append _ _) hfile
    have hbody := hs.bodies key hkey
    rw [← heq,hfile] at hbody
    obtain ⟨o,ho,-⟩ := Option.map_eq_some_iff.mp hbody.symm
    exact ⟨key.splitOn slash,hkey.isText,(hs.legal key o ho).2,List.append_cancel_left heq⟩

private theorem rendered_names (hnames : ∀ n ∈ names, IsText n) : ∀ n ∈ rootNames a.cwd a.root ++ names, IsName n := fun n hn =>
  (List.mem_append.mp hn).elim (rootNames_names _ _ n) fun hn => (hnames n hn).1

/-- An entry is named by text, and the way to it can be given to the system. -/
private theorem ListInv.entry_name (hs : ListInv a s) (hnames : ∀ n ∈ names, IsText n) {e : Name × Bool}
    (he : e ∈ entries s.disk (rootPath a ++ names.map utf8Bytes)) :
    ∃ n, IsText n ∧ e.1 = utf8Bytes n ∧ 0 ∉ render (rootNames a.cwd a.root ++ names) := by
  obtain ⟨i,hi,-⟩ := mem_entries.mp he
  rw [List.append_assoc] at hi
  obtain ⟨all,htext,hnul,hall⟩ := hs.names_of_lookup hi (by simp)
  obtain ⟨init,last,rfl,hinit,hlast⟩ := List.map_eq_append_iff.mp hall.symm
  obtain ⟨n,rfl,hn⟩ := List.map_eq_singleton_iff.mp hlast
  obtain rfl := map_utf8Bytes_injective (fun m hm => htext m (List.mem_append_left _ hm)) hnames hinit
  refine ⟨n,htext n (by simp),hn.symm,fun hzero => hnul ?_⟩
  rw [zero_mem_render] at hzero ⊢
  obtain ⟨m,hm,hzero⟩ := hzero
  refine ⟨m,?_,hzero⟩
  rw [← List.append_assoc]
  exact List.mem_append_left _ hm

def listed (a : LocalAdapter) (q : FilePath) : JsString :=
  render (rootNames a.cwd a.root ++ (q.drop (rootPath a).length).map decodeLossy)

theorem listed_below (hnames : ∀ n ∈ names, IsText n) :
    listed a (rootPath a ++ names.map utf8Bytes) = render (rootNames a.cwd a.root ++ names) := by
  rw [listed,List.drop_left,List.map_map]
  exact congrArg (fun l => render (rootNames a.cwd a.root ++ l))
    ((List.map_congr_left fun n hn => (hnames n hn).2).trans (List.map_id names))

/-- The walk over path names is the walk over the tree. -/
theorem ListInv.walk_eq (hs : ListInv a s) (fuel : Nat) (hnames : ∀ n ∈ names, IsText n) :
    walk order s.disk fuel (render (rootNames a.cwd a.root ++ names)) =
      (walkFiles order s.disk fuel (rootPath a ++ names.map utf8Bytes)).map (listed a) := by
  induction fuel generalizing names with
  | zero => rfl
  | succ fuel ih =>
    have hpath : (rootNames a.cwd a.root ++ names).map utf8Bytes = rootPath a ++ names.map utf8Bytes := List.map_append
    rw [walk,walkFiles]
    by_cases hempty : entries s.disk (rootPath a ++ names.map utf8Bytes) = []
    · -- the directory may be missing, and is read as one without entries
      rw [hempty,List.perm_nil.mp (order.perm []),List.flatMap_nil,List.map_nil]
      cases hread : readdir order s.disk (render (rootNames a.cwd a.root ++ names)) with
      | error e => rfl
      | ok l =>
        rw [readdir] at hread
        cases hq : osPath (render (rootNames a.cwd a.root ++ names)) with
        | error e =>
          rw [hq] at hread
          cases hread
        | ok q =>
        rw [hq,osPath_render (rendered_names hnames) hq,hpath] at hread
        change (lift (s.disk.readdir order _)).map _ = _ at hread
        cases hdir : s.disk.readdir order (rootPath a ++ names.map utf8Bytes) with
        | error e =>
          rw [hdir] at hread
          cases hread
        | ok l' =>
          rw [hdir] at hread
          cases hread
          rw [readdir_eq_ok hdir,hempty,List.perm_nil.mp (order.perm [])]
          rfl
    · have hread : readdir order s.disk (render (rootNames a.cwd a.root ++ names)) =
          .ok ((order.arrange (entries s.disk (rootPath a ++ names.map utf8Bytes))).map fun e => (decodeLossy e.1,e.2)) := by
        obtain ⟨e,he⟩ := List.exists_mem_of_ne_nil _ hempty
        obtain ⟨-,-,-,hnul⟩ := hs.entry_name hnames he
        rw [readdir,osPath_ok (rendered_names hnames) hnul,hpath]
        change (lift (s.disk.readdir order _)).map _ = _
        rw [hs.grown.readdir_of_entry hempty]
        rfl
      rw [hread]
      dsimp only
      rw [List.flatMap_map,List.map_flatMap]
      refine List.flatMap_congr fun e he => ?_
      obtain ⟨n,hn,hname,-⟩ := hs.entry_name hnames ((order.perm _).mem_iff.mp he)
      have hnext : ∀ m ∈ names ++ [n], IsText m := fun m hm =>
        (List.mem_append.mp hm).elim (hnames m) fun hm => List.mem_singleton.mp hm ▸ hn
      have hwide : rootPath a ++ names.map utf8Bytes ++ [utf8Bytes n] = rootPath a ++ (names ++ [n]).map utf8Bytes := by simp
      rw [hname,hn.2,join_render (rendered_names hnames) hn.1,List.append_assoc (rootNames a.cwd a.root),hwide]
      cases e.2 with
      | true => exact ih hnext
      | false => exact congrArg (fun p => [p]) (listed_below hnext).symm

theorem ListInv.stored_at (hs : ListInv a s) (ho : o ∈ s.stored.rows) :
    LegalKey o.key ∧ 0 ∉ render (keyNames a o.key) ∧ fileAt s.disk (place a o.key) = some o.body := by
  have hlookup := Table.lookup_of_mem ho
  obtain ⟨hkey,hnul⟩ := hs.legal o.key o hlookup
  refine ⟨hkey,hnul,?_⟩
  rw [hs.bodies o.key hkey,hlookup]
  rfl

private theorem length_le_depth {d : Disk} {q : FilePath} {i : Inode} (h : d.lookup q = some i) : q.length ≤ depth d := by
  have hfold : ∀ (l : List Nat) (n acc : Nat), n ∈ l ∨ n ≤ acc → n ≤ l.foldl max acc := by
    intro l
    induction l with
    | nil => exact fun n acc hn => hn.resolve_left List.not_mem_nil
    | cons m l ih =>
      intro n acc hn
      refine ih n (max acc m) ?_
      rcases hn with hn | hn
      · rcases List.mem_cons.mp hn with rfl | hn
        · exact .inr (Nat.le_max_right _ _)
        · exact .inl hn
      · exact .inr (hn.trans (Nat.le_max_left _ _))
  obtain ⟨hi,hq⟩ := Table.lookup_eq_some.mp h
  refine hfold _ _ _ (.inl (List.mem_map.mpr ⟨i,hi,?_⟩))
  rw [hq]

theorem ListInv.walkFiles_perm (hs : ListInv a s) :
    (walkFiles order s.disk (depth s.disk) (rootPath a)).Perm (s.stored.rows.map fun o => place a o.key) := by
  have hdepth : ∀ r i, s.disk.lookup r = some i → rootPath a <+: r → r.length ≤ (rootPath a).length + depth s.disk :=
    fun r i hi _ => (length_le_depth hi).trans (Nat.le_add_left _ _)
  have hrows : (s.stored.rows.map fun o => place a o.key).Nodup := by
    refine (List.Nodup.of_map _ s.stored.unique).map_on fun o ho o' ho' hplace => ?_
    exact Table.eq_of_key ho ho' (place_injective (hs.stored_at ho).1 (hs.stored_at ho').1 hplace)
  refine (List.perm_ext_iff_of_nodup (nodup_walkFiles order s.disk _ _) hrows).mpr fun q => ?_
  rw [mem_walkFiles hs.grown hdepth,List.mem_map]
  constructor
  · rintro ⟨hq,-,content,hfile⟩
    obtain ⟨key,hkey,rfl⟩ := hs.places q content hq hfile
    rw [hs.bodies key hkey] at hfile
    obtain ⟨o,ho,-⟩ := Option.map_eq_some_iff.mp hfile
    obtain ⟨hmem,rfl⟩ := Table.lookup_eq_some.mp ho
    exact ⟨o,hmem,rfl⟩
  · rintro ⟨o,ho,rfl⟩
    refine ⟨List.prefix_append _ _,fun heq => ?_,o.body,(hs.stored_at ho).2.2⟩
    have hnone := List.append_cancel_left ((List.append_nil (rootPath a)).trans heq)
    exact List.splitOn_ne_nil slash o.key (List.map_eq_nil_iff.mp hnone.symm)

/-- A reordering of images is one of what they are images of. -/
private theorem exists_of_perm_map {α β : Type} {f : α → β} {l : List β} {rows : List α} (h : l.Perm (rows.map f)) :
    ∃ rows' : List α, l = rows'.map f ∧ rows'.Perm rows := by
  induction l generalizing rows with
  | nil =>
    rw [List.map_eq_nil_iff.mp (List.nil_perm.mp h)]
    exact ⟨[],rfl,.refl _⟩
  | cons x l ih =>
    obtain ⟨o,ho,rfl⟩ := List.mem_map.mp (h.subset List.mem_cons_self)
    obtain ⟨r,r',rfl⟩ := List.append_of_mem ho
    have hrest : l.Perm ((r ++ r').map f) := (h.trans (List.perm_middle.map f)).cons_inv
    obtain ⟨rows',rfl,hperm⟩ := ih hrest
    exact ⟨o :: rows',rfl,(hperm.cons o).trans List.perm_middle.symm⟩

private theorem mapM_eq_ok {α β ε : Type} {f : α → Except ε β} {g : α → β} {l : List α} (h : ∀ x ∈ l, f x = .ok (g x)) :
    l.mapM f = .ok (l.map g) := by
  induction l with
  | nil => rfl
  | cons x l ih =>
    rw [List.mapM_cons,h x List.mem_cons_self,ih fun y hy => h y (List.mem_cons_of_mem x hy)]
    rfl

private theorem ListInv.fsStat_eq (hs : ListInv a s) (ho : o ∈ s.stored.rows) :
    fsStat (a.path o.key) s.disk = (.ok (some o.body),s.disk) := by
  obtain ⟨hkey,hnul,hfile⟩ := hs.stored_at ho
  rw [show a.path o.key = render (keyNames a o.key) from path_legal a hkey,fsStat,withPath,osPath_ok (keyNames_names hkey) hnul]
  dsimp only
  rw [Fs.ask,keyNames_place,hs.grown.stat_of_fileAt hfile]
  rfl

/-- Every stored object is listed, with its size and a part of its path. -/
theorem ListInv.listPrefix_perm (hs : ListInv a s) (order : ReaddirOrder) :
    ∃ l, a.listPrefix order [] s.disk = .ok l ∧
      l.Perm (s.stored.rows.map fun o => ⟨(a.path o.key).drop (a.root.length + 1),o.size⟩) := by
  obtain ⟨rows,hwalk,hrows⟩ := exists_of_perm_map (@ListInv.walkFiles_perm _ order _ hs)
  have hroot : a.path [] = render (rootNames a.cwd a.root ++ []) := resolve_below a.cwd_absolute fun s hs => absurd hs List.not_mem_nil
  refine ⟨rows.map _,?_,hrows.map _⟩
  rw [LocalAdapter.listPrefix,hroot,hs.walk_eq _ fun n hn => absurd hn List.not_mem_nil,List.map_nil,List.append_nil,hwalk,List.map_map,
    List.mapM_map]
  refine mapM_eq_ok fun o ho => ?_
  obtain ⟨hkey,hnul,hfile⟩ := hs.stored_at (hrows.mem_iff.mp ho)
  have hlisted : listed a (place a o.key) = a.path o.key := (listed_below hkey.isText).trans (path_legal a hkey).symm
  have hpath : osPath (a.path o.key) = .ok (place a o.key) := by
    rw [path_legal a hkey,← keyNames_place]
    exact osPath_ok (keyNames_names hkey) hnul
  rw [Function.comp_apply,Function.comp_apply,hlisted,LocalAdapter.entry,hpath]
  change (lift (s.disk.stat (place a o.key))).map _ = _
  rw [hs.grown.stat_of_fileAt hfile]
  change Except.ok (ListEntry.mk _ _) = _
  rw [List.intercalate_splitOn]
  rfl

theorem ListInv.getStream_stored (hs : ListInv a s) (ho : o ∈ s.stored.rows) :
    (a.getStream o.key none s.disk).1 = .ok o.body := by
  rw [LocalAdapter.getStream,Fs.bind_apply,Fs.tryCatch_apply,hs.fsStat_eq ho]
  rfl

end Listing

section Slicing
variable {a : LocalAdapter} {order : ReaddirOrder} {s : LocalState} {key : JsString}

/-- The length of the directory's name before a key, with the slash that ends it. -/
def rootLength (a : LocalAdapter) : Nat := (if resolve a.cwd [a.root] = [slash] then 0 else (resolve a.cwd [a.root]).length) + 1

theorem rootSpelled_iff : RootSpelled a ↔ a.root.length + 1 = rootLength a := by rw [RootSpelled,rootLength,Nat.add_right_cancel_iff]

theorem path_eq_append (h : LegalKey key) : ∃ front, a.path key = front ++ key ∧ front.length = rootLength a := by
  have hroot : resolve a.cwd [a.root] = render (rootNames a.cwd a.root) := by
    rw [resolve_below a.cwd_absolute fun s hs => absurd hs List.not_mem_nil,List.filter_nil,List.append_nil]
  obtain ⟨init,last,hsplit⟩ := splitOn_snoc key
  have hkey : key = init.flatMap (· ++ [slash]) ++ last := by
    rw [← intercalate_snoc,← hsplit,List.intercalate_splitOn]
  refine ⟨slash :: (rootNames a.cwd a.root).flatMap (· ++ [slash]),?_,?_⟩
  · rw [path_legal a h,hsplit,← List.append_assoc,render,intercalate_snoc,List.flatMap_append,List.append_assoc,← hkey,List.cons_append]
  · rw [rootLength,hroot,List.length_cons,Nat.add_right_cancel_iff]
    rcases List.eq_nil_or_concat (rootNames a.cwd a.root) with hnil | ⟨front,name,hsnoc⟩
    · rw [hnil]
      rfl
    · have hne : render (rootNames a.cwd a.root) ≠ [slash] := by
        intro heq
        have hnil := render_injective (rootNames_names a.cwd a.root) (fun s hs => absurd hs List.not_mem_nil)
          (heq.trans (show [slash] = render [] from rfl))
        rw [hnil] at hsnoc
        exact absurd hsnoc.symm (by simp)
      rw [if_neg hne,hsnoc,List.concat_eq_append,render,intercalate_snoc,List.flatMap_append,List.flatMap_singleton,
        List.length_append,List.length_cons,List.length_append,List.length_append]
      rfl

theorem LegalKey.length_pos (h : LegalKey key) : 0 < key.length := by
  rw [List.length_pos_iff]
  rintro rfl
  exact (h.names [] (by decide)).1 rfl

/-- In a listing that has the keys, the keys are not cut. -/
private theorem rootSpelled_of_perm (hs : ListInv a s) (hne : s.stored.rows ≠ [])
    (h : (s.stored.rows.map fun o => (⟨(a.path o.key).drop (a.root.length + 1),o.size⟩ : ListEntry)).Perm
      (s.stored.rows.map fun o => ⟨o.key,o.size⟩)) : RootSpelled a := by
  have hsums := (h.map fun e => e.key.length).sum_eq
  rw [List.map_map,List.map_map] at hsums
  have hlength : ∀ o ∈ s.stored.rows, ((a.path o.key).drop (a.root.length + 1)).length =
      rootLength a + o.key.length - (a.root.length + 1) := by
    intro o ho
    obtain ⟨front,hpath,hfront⟩ := path_eq_append (a := a) (hs.stored_at ho).1
    rw [hpath,List.length_drop,List.length_append,hfront]
  rw [rootSpelled_iff]
  rcases Nat.lt_trichotomy (a.root.length + 1) (rootLength a) with hlt | heq | hgt
  · refine absurd hsums (List.sum_lt_sum_of_ne_nil hne _ _ fun o ho => ?_).ne'
    have hlen := hlength o ho
    simp only [Function.comp_apply]
    omega
  · exact heq
  · refine absurd hsums (List.sum_lt_sum_of_ne_nil hne _ _ fun o ho => ?_).ne
    have hlen := hlength o ho
    have hpos := (hs.stored_at ho).1.length_pos
    simp only [Function.comp_apply]
    omega

theorem ListInv.listingExact_iff (hs : ListInv a s) : ListingExact a order s ↔ s.stored.rows = [] ∨ RootSpelled a := by
  obtain ⟨l,hlist,hperm⟩ := hs.listPrefix_perm order
  constructor
  · rintro ⟨⟨l',hlist',hperm'⟩,-⟩
    obtain rfl := Except.ok.inj (hlist.symm.trans hlist')
    by_cases hne : s.stored.rows = []
    · exact .inl hne
    · exact .inr (rootSpelled_of_perm hs hne (hperm.symm.trans hperm'))
  · intro hroot
    refine ⟨⟨l,hlist,?_⟩,fun o ho => hs.getStream_stored ho⟩
    rcases hroot with hempty | hroot
    · rw [hempty] at hperm ⊢
      exact hperm
    · have hkeys : (s.stored.rows.map fun o => (⟨(a.path o.key).drop (a.root.length + 1),o.size⟩ : ListEntry)) =
          s.stored.rows.map fun o => ⟨o.key,o.size⟩ := by
        refine List.map_congr_left fun o ho => ?_
        obtain ⟨front,hpath,hfront⟩ := path_eq_append (a := a) (hs.stored_at ho).1
        rw [hpath,rootSpelled_iff.mp hroot,← hfront,List.drop_left]
      rw [← hkeys]
      exact hperm

/-- In every state that the calls lead to from an empty root, the listing is exact as far as the root is spelled with the
length of the directory that it stands for. -/
theorem listing_exact_iff (a : LocalAdapter) (order : ReaddirOrder) {d : Disk} (hd : EmptyRoot a d) {s : LocalState}
    (hrun : Run (localStep a) (Legal a) ⟨d,.empty⟩ s) : ListingExact a order s ↔ s.stored.rows = [] ∨ RootSpelled a :=
  (listInv_run hd hrun).listingExact_iff

private theorem emptyRoot_empty (a : LocalAdapter) : EmptyRoot a .empty := ⟨grown_empty,fun _ _ h => by cases h⟩

/-- One object, stored in an empty file system. -/
private theorem run_put {a : LocalAdapter} {key : JsString} (hkey : LegalKey key) (body : Body) (now : Nat) (random : RandomSuffix) :
    Run (localStep a) (Legal a) ⟨.empty,.empty⟩ (LocalState.call a ⟨.empty,.empty⟩ (.put key body now random)) :=
  .tail (.put key body now random) (.refl _) ⟨hkey,fun _ _ => rfl⟩ rfl

private def suffix : RandomSuffix := ⟨js "k3x",by decide⟩

/-- The root is a directory below the working directory, and what is sliced off is shorter than its path. -/
theorem relative_root_cuts : ¬∀ (a : LocalAdapter) (order : ReaddirOrder) (d : Disk) (s : LocalState), EmptyRoot a d →
    Run (localStep a) (Legal a) ⟨d,.empty⟩ s → ListingExact a order s := by
  intro h
  have hkey : LegalKey (js "a") := ⟨by decide,by decide⟩
  let a : LocalAdapter := ⟨js "/srv",by decide,js "./data",fun _ => [],4096⟩
  have hrun := run_put (a := a) hkey ⟨[104,105],true⟩ 5 suffix
  have hexact := h a ⟨id,fun l => .refl l⟩ .empty _ (emptyRoot_empty a) hrun
  rcases (listInv_run (emptyRoot_empty a) hrun).listingExact_iff.mp hexact with hempty | hroot
  · exact absurd hempty (by decide)
  · exact absurd (rootSpelled_iff.mp hroot) (by decide)

theorem listing_exact_absolute : ListingExact ⟨js "/srv",by decide,js "/data",fun _ => [],4096⟩ ⟨id,fun l => .refl l⟩
    (LocalState.call ⟨js "/srv",by decide,js "/data",fun _ => [],4096⟩ ⟨.empty,
    .empty⟩ (.put (js "a/b") ⟨[104,105],true⟩ 5 ⟨js "k3x",by decide⟩)) :=
  (listing_exact_iff ⟨js "/srv",by decide,js "/data",fun _ => [],4096⟩ _ (emptyRoot_empty _)
    (run_put ⟨by decide,by decide⟩ ⟨[104,105],true⟩ 5 ⟨js "k3x",by decide⟩)).mpr (.inr (rootSpelled_iff.mpr (by decide)))

end Slicing

end JustMail.Storage.Local
