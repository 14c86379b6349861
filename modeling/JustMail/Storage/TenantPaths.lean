import JustMail.Storage.LocalAdapter

/-! The objects of a tenant lie below its own directory, and no call for a tenant reads or writes
below that of another. -/
namespace JustMail.Storage.Local
open Foundation PosixPath FileSystem Webmail

section Names
variable {a : LocalAdapter} {names : List JsString} {zone : FilePath}

/-- The segments of a path that lead down. -/
def tenantNames (path : JsString) : List JsString :=
  ((path.splitOn slash).filter fun p => p ≠ [] ∧ p ≠ dotdot).filter (· ≠ dot)

theorem tenantNames_names (path : JsString) : ∀ name ∈ tenantNames path, IsName name := by
  intro name hname
  simp only [tenantNames,List.mem_filter,decide_eq_true_eq] at hname
  obtain ⟨⟨hmem,hne,hup⟩,hdot⟩ := hname
  exact ⟨hne,hdot,hup,notMem_of_mem_splitOn hmem⟩

theorem uuid_name (id : UuidText) : IsName id.text := by
  have hunit : ∀ c ∈ id.text, isUuidUnit c = true := id.units
  have hlen : id.text.length = 36 := id.length
  refine ⟨?_,?_,?_,fun hslash => ?_⟩
  · intro h
    rw [h] at hlen
    cases hlen
  · intro h
    rw [h] at hlen
    cases hlen
  · intro h
    rw [h] at hlen
    cases hlen
  · have hno := hunit slash hslash
    cases hno

theorem uuid_ascii (id : UuidText) : ∀ c ∈ id.text, c < 128 := by
  intro c hc
  have hunit := id.units c hc
  simp only [isUuidUnit,Bool.or_eq_true,Bool.and_eq_true,decide_eq_true_eq,beq_iff_eq] at hunit
  rcases hunit with ((h | h) | h) | h
  · exact UInt16.lt_of_le_of_lt h.2 (by decide)
  · exact UInt16.lt_of_le_of_lt h.2 (by decide)
  · exact UInt16.lt_of_le_of_lt h.2 (by decide)
  · rw [h]
    decide

def tenantDir (a : LocalAdapter) (orgId : UuidText) : List JsString := rootNames a.cwd a.root ++ [js "org",orgId.text]

theorem tenantDir_names (a : LocalAdapter) (orgId : UuidText) : ∀ name ∈ tenantDir a orgId, IsName name := by
  intro name hname
  rcases List.mem_append.mp hname with hname | hname
  · exact rootNames_names _ _ name hname
  · simp only [List.mem_cons,List.not_mem_nil,or_false] at hname
    rcases hname with rfl | rfl
    · decide
    · exact uuid_name orgId

/-- Both filters leave the same segments, and the path goes down along them. -/
theorem path_storageKey (a : LocalAdapter) (orgId : UuidText) (path : JsString) :
    a.path (storageKey orgId.text [path]) = render (tenantDir a orgId ++ tenantNames path) := by
  have horg : IsName (js "org") := by decide
  have hclean : ∀ p ∈ (path.splitOn slash).filter (fun p => p ≠ [] ∧ p ≠ dotdot), p ≠ [] ∧ p ≠ dotdot ∧ slash ∉ p := by
    intro p hp
    obtain ⟨hmem,hkeep⟩ := List.mem_filter.mp hp
    obtain ⟨hne,hup⟩ := of_decide_eq_true hkeep
    exact ⟨hne,hup,notMem_of_mem_splitOn hmem⟩
  have hall : ∀ p ∈ [js "org",orgId.text] ++ (path.splitOn slash).filter (fun p => p ≠ [] ∧ p ≠ dotdot),
      p ≠ [] ∧ p ≠ dotdot ∧ slash ∉ p := by
    intro p hp
    rcases List.mem_append.mp hp with hp | hp
    · simp only [List.mem_cons,List.not_mem_nil,or_false] at hp
      rcases hp with rfl | rfl
      · exact ⟨horg.1,horg.2.2⟩
      · exact ⟨(uuid_name orgId).1,(uuid_name orgId).2.2⟩
    · exact hclean p hp
  have hkey : storageKey orgId.text [path] =
      [slash].intercalate ([js "org",orgId.text] ++ (path.splitOn slash).filter fun p => p ≠ [] ∧ p ≠ dotdot) := by
    rw [storageKey,List.flatMap_singleton]
  have hfirst : (storageKey orgId.text [path]).dropWhile (· = slash) = storageKey orgId.text [path] := by
    rw [hkey,List.cons_append,List.intercalate_cons_of_ne_nil (by simp)]
    rfl
  have hsplit : ((storageKey orgId.text [path]).splitOn slash).filter (fun p => p ≠ [] ∧ p ≠ dotdot) =
      [js "org",orgId.text] ++ (path.splitOn slash).filter fun p => p ≠ [] ∧ p ≠ dotdot := by
    rw [hkey,List.splitOn_intercalate slash (fun p hp => (hall p hp).2.2) (by simp),List.filter_eq_self]
    exact fun p hp => decide_eq_true ⟨(hall p hp).1,(hall p hp).2.1⟩
  have hdots : ([js "org",orgId.text] ++ (path.splitOn slash).filter fun p => p ≠ [] ∧ p ≠ dotdot).filter (· ≠ dot) =
      [js "org",orgId.text] ++ tenantNames path := by
    rw [List.filter_append,tenantNames]
    refine congrArg (· ++ _) (List.filter_eq_self.mpr fun p hp => ?_)
    simp only [List.mem_cons,List.not_mem_nil,or_false] at hp
    rcases hp with rfl | rfl
    · exact decide_eq_true horg.2.1
    · exact decide_eq_true (uuid_name orgId).2.1
  rw [LocalAdapter.path,hfirst,hsplit,resolve_below a.cwd_absolute hall,hdots,tenantDir,List.append_assoc]

theorem osPath_render (hnames : ∀ name ∈ names, IsName name) {q : FilePath} (h : osPath (render names) = .ok q) :
    q = names.map utf8Bytes := by
  rw [osPath] at h
  split at h
  · cases h
  · rw [keptSegments_render hnames] at h
    exact (Except.ok.inj h).symm

theorem osPath_ok (hnames : ∀ name ∈ names, IsName name) (hnul : 0 ∉ render names) :
    osPath (render names) = .ok (names.map utf8Bytes) := by
  rw [osPath,if_neg hnul,keptSegments_render hnames]

end Names
section Calls
variable {α : Type} {zone : FilePath} {names others : List JsString}

/-- The names lead to a place outside of a directory. -/
def Outside (zone : FilePath) (names : List JsString) : Prop :=
  (∀ name ∈ names, IsName name) ∧ ¬zone <+: names.map utf8Bytes

theorem confined_withPath {f : FilePath → Fs LocalError α} (h : Outside zone names)
    (hf : ∀ q, ¬zone <+: q → Confined zone (f q)) : Confined zone (withPath (render names) f) := by
  rw [withPath]
  cases hq : osPath (render names) with
  | error e => exact confined_throw e
  | ok q =>
    rw [osPath_render h.1 hq]
    exact hf _ h.2

private theorem confined_lift {f : Disk → Except Errno Disk} (h : ∀ d e, AgreeOff zone d e → SameChange zone d (f d) (f e)) :
    Confined zone (Fs.change fun d => lift (f d)) := by
  refine confined_change fun d e hagree => ?_
  have hsame := h d e hagree
  cases hd : f d with
  | ok d' =>
    cases he : f e with
    | ok e' => rwa [hd,he] at hsame
    | error y => rw [hd,he] at hsame; exact hsame.elim
  | error x =>
    cases he : f e with
    | ok e' => rw [hd,he] at hsame; exact hsame.elim
    | error y =>
      rw [hd,he] at hsame
      exact congrArg LocalError.errno hsame

theorem confined_fsMkdir (h : Outside zone names) : Confined zone (fsMkdir (render names)) :=
  confined_withPath h fun _ hq => confined_lift fun _ _ hagree => mkdir_same hq hagree

theorem confined_fsWrite (h : Outside zone names) (content : Bytes) : Confined zone (fsWrite (render names) content) :=
  confined_withPath h fun _ hq => confined_lift fun _ _ hagree => writeFile_same hq content hagree

theorem confined_fsUnlink (h : Outside zone names) : Confined zone (fsUnlink (render names)) :=
  confined_withPath h fun _ hq => confined_lift fun _ _ hagree => unlink_same hq hagree

theorem confined_fsRename (h : Outside zone names) (h' : Outside zone others) :
    Confined zone (fsRename (render names) (render others)) :=
  confined_withPath h fun _ hq => confined_withPath h' fun _ hq' => confined_lift fun _ _ hagree => rename_same hq hq' hagree

theorem confined_fsCopyFile (h : Outside zone names) (h' : Outside zone others) :
    Confined zone (fsCopyFile (render names) (render others)) :=
  confined_withPath h fun _ hq => confined_withPath h' fun _ hq' => confined_lift fun _ _ hagree => copyFile_same hq hq' hagree

theorem confined_fsStat (h : Outside zone names) : Confined zone (fsStat (render names)) :=
  confined_withPath h fun q hq => confined_ask fun d e hagree => by rw [hagree.stat_eq hq]

end Calls

section Tenants
variable {a : LocalAdapter} {orgId other : UuidText} {names : List JsString}

private theorem text_injective (h : orgId.text = other.text) : orgId = other := by
  cases orgId
  cases other
  cases h
  rfl

/-- What lies below another tenant's directory has its id in the place of the tenant. -/
private theorem name_of_below (h : (tenantDir a other).map utf8Bytes <+: names.map utf8Bytes) :
    names[(rootNames a.cwd a.root).length + 1]? = some other.text := by
  obtain ⟨rest,hrest⟩ := h
  have hat : (names.map utf8Bytes)[(rootNames a.cwd a.root).length + 1]? = some (utf8Bytes other.text) := by
    rw [← hrest,tenantDir,List.map_append,List.append_assoc,List.getElem?_append_right (by simp)]
    simp
  rw [List.getElem?_map,Option.map_eq_some_iff] at hat
  obtain ⟨name,hname,hbytes⟩ := hat
  rw [hname,utf8Bytes_injective_ascii (uuid_ascii other) hbytes]

private theorem below_outside (hne : orgId ≠ other) (hnames : ∀ name ∈ names, IsName name) :
    Outside ((tenantDir a other).map utf8Bytes) (tenantDir a orgId ++ names) := by
  refine ⟨fun name hname => ?_,fun hpre => ?_⟩
  · rcases List.mem_append.mp hname with hname | hname
    · exact tenantDir_names a orgId name hname
    · exact hnames name hname
  · have hat := name_of_below hpre
    rw [tenantDir,List.append_assoc,List.getElem?_append_right (by simp)] at hat
    have htext : orgId.text = other.text := by simpa using hat
    exact hne (text_injective htext)

/-- The directory of all tenants is outside of each, and so is a name in it that is no id. -/
private theorem org_outside : Outside ((tenantDir a other).map utf8Bytes) (rootNames a.cwd a.root ++ [js "org"]) := by
  refine ⟨fun name hname => ?_,fun hpre => ?_⟩
  · rcases List.mem_append.mp hname with hname | hname
    · exact rootNames_names _ _ name hname
    · rw [List.mem_singleton.mp hname]
      decide
  · have hat := name_of_below hpre
    rw [List.getElem?_eq_none (by simp)] at hat
    cases hat

theorem tmp_units (now : Nat) (random : RandomSuffix) :
    ∀ c ∈ tmpName now random, c = unit '.' ∨ c = unit '-' ∨ (48 ≤ c ∧ c ≤ 57) ∨ (97 ≤ c ∧ c ≤ 122) := by
  intro c hc
  rw [tmpName] at hc
  simp only [List.mem_append] at hc
  rcases hc with ((hc | hc) | hc) | hc
  · have hhead : ∀ c ∈ js ".jm-tmp-", c = unit '.' ∨ c = unit '-' ∨ (48 ≤ c ∧ c ≤ 57) ∨ (97 ≤ c ∧ c ≤ 122) := by decide
    exact hhead c hc
  · have hdigit := decimal_digits now c hc
    simp only [isDigit,Bool.and_eq_true,decide_eq_true_eq] at hdigit
    exact .inr (.inr (.inl hdigit))
  · exact .inr (.inl (List.mem_singleton.mp hc))
  · rcases random.units c hc with h | h
    · exact .inr (.inr (.inl h))
    · exact .inr (.inr (.inr h))

private theorem tmp_cons (now : Nat) (random : RandomSuffix) :
    ∃ rest, tmpName now random = unit '.' :: unit 'j' :: rest := ⟨_,rfl⟩

theorem tmp_name (now : Nat) (random : RandomSuffix) : IsName (tmpName now random) := by
  obtain ⟨rest,hrest⟩ := tmp_cons now random
  refine ⟨?_,?_,?_,fun hslash => ?_⟩
  · rw [hrest]
    exact List.cons_ne_nil _ _
  · rw [hrest]
    intro h
    cases h
  · rw [hrest]
    intro h
    cases h
  · have hno := tmp_units now random slash hslash
    exact absurd hno (by decide)

private theorem tmp_outside (hnames : Outside ((tenantDir a other).map utf8Bytes) names)
    (hplace : names = rootNames a.cwd a.root ++ [js "org"] ∨ ∃ rest, orgId ≠ other ∧ names = tenantDir a orgId ++ rest) (now : Nat)
    (random : RandomSuffix) : Outside ((tenantDir a other).map utf8Bytes) (names ++ [tmpName now random]) := by
  have hall : ∀ name ∈ names ++ [tmpName now random], IsName name := by
    intro name hname
    rcases List.mem_append.mp hname with hname | hname
    · exact hnames.1 name hname
    · rw [List.mem_singleton.mp hname]
      exact tmp_name now random
  rcases hplace with rfl | ⟨rest,hne,rfl⟩
  · refine ⟨hall,fun hpre => ?_⟩
    have hat := name_of_below hpre
    have htext : tmpName now random = other.text := by simpa using hat
    obtain ⟨tail,htail⟩ := tmp_cons now random
    have hunit := other.units (unit '.') (by rw [← htext,htail]; exact List.mem_cons_self)
    cases hunit
  · rw [List.append_assoc]
    refine below_outside hne fun name hname => hall name ?_
    rw [List.append_assoc]
    exact List.mem_append_right _ hname

/-- Where a call for a file works: there, in its directory, and on a staged file. -/
private structure Places (a : LocalAdapter) (other : UuidText) (file dir : List JsString) : Prop where
  dirname_eq : dirname (render file) = render dir
  file_outside : Outside ((tenantDir a other).map utf8Bytes) file
  dir_outside : Outside ((tenantDir a other).map utf8Bytes) dir
  tmp_outside : ∀ now random, Outside ((tenantDir a other).map utf8Bytes) (dir ++ [tmpName now random])

private theorem places (hne : orgId ≠ other) (path : JsString) :
    ∃ file dir, a.path (storageKey orgId.text [path]) = render file ∧ Places a other file dir := by
  have hnames := tenantNames_names path
  have horg : Outside ((tenantDir a other).map utf8Bytes) (rootNames a.cwd a.root ++ [js "org"]) := org_outside
  refine ⟨tenantDir a orgId ++ tenantNames path,?_⟩
  rcases List.eq_nil_or_concat (tenantNames path) with hnil | ⟨init,last,hlast⟩
  · have htext : tenantDir a orgId ++ tenantNames path = (rootNames a.cwd a.root ++ [js "org"]) ++ [orgId.text] := by
      rw [hnil,tenantDir]
      simp
    exact ⟨rootNames a.cwd a.root ++ [js "org"],path_storageKey a orgId path,
      by rw [htext,dirname_render horg.1 (uuid_name orgId)],below_outside hne hnames,horg,@tmp_outside _ orgId _ _ horg (.inl rfl)⟩
  · rw [List.concat_eq_append] at hlast
    have hinit : ∀ name ∈ init, IsName name := fun name hname => hnames name (by rw [hlast]; exact List.mem_append_left _ hname)
    have hbelow := below_outside (a := a) hne hinit
    exact ⟨tenantDir a orgId ++ init,path_storageKey a orgId path,
      by rw [hlast,← List.append_assoc,dirname_render hbelow.1 (hnames last (by rw [hlast]; simp))],below_outside hne hnames,hbelow,
      tmp_outside hbelow (.inr ⟨init,hne,rfl⟩)⟩

private theorem confined_putObject (hne : orgId ≠ other) (path : JsString) (body : Body) (now : Nat) (random : RandomSuffix) :
    Confined ((tenantDir a other).map utf8Bytes) (a.putObject (storageKey orgId.text [path]) body now random) := by
  obtain ⟨file,dir,hpath,p⟩ := places (a := a) hne path
  have htmp := p.tmp_outside now random
  rw [LocalAdapter.putObject]
  dsimp only
  rw [hpath,p.dirname_eq,join_render p.dir_outside.1 (tmp_name now random)]
  refine confined_bind (confined_fsMkdir p.dir_outside) fun _ =>
    confined_bind (confined_tryCatch ?_ fun err => ?_) fun _ => confined_pure _
  · refine confined_bind (confined_bind (confined_fsWrite htmp _) fun _ => ?_) fun _ => confined_fsRename htmp p.file_outside
    split
    · exact confined_pure _
    · exact confined_throw _
  · exact confined_bind (confined_tryCatch (confined_fsUnlink htmp) fun _ => confined_pure _) fun _ => confined_throw _

private theorem confined_getStream (hne : orgId ≠ other) (path : JsString) (range : Option Range) :
    Confined ((tenantDir a other).map utf8Bytes) (a.getStream (storageKey orgId.text [path]) range) := by
  obtain ⟨file,dir,hpath,p⟩ := places (a := a) hne path
  rw [LocalAdapter.getStream,hpath]
  refine confined_bind (confined_tryCatch (confined_fsStat p.file_outside) fun _ => confined_throw _) fun content => ?_
  split
  · exact confined_throw _
  · split
    · exact confined_throw _
    · exact confined_pure _

private theorem confined_headObject (hne : orgId ≠ other) (path : JsString) :
    Confined ((tenantDir a other).map utf8Bytes) (a.headObject (storageKey orgId.text [path])) := by
  obtain ⟨file,dir,hpath,p⟩ := places (a := a) hne path
  rw [LocalAdapter.headObject,hpath]
  exact confined_bind (confined_tryCatch (confined_fsStat p.file_outside) fun _ => confined_throw _) fun _ => confined_pure _

private theorem confined_deleteObject (hne : orgId ≠ other) (path : JsString) :
    Confined ((tenantDir a other).map utf8Bytes) (a.deleteObject (storageKey orgId.text [path])) := by
  obtain ⟨file,dir,hpath,p⟩ := places (a := a) hne path
  rw [LocalAdapter.deleteObject,hpath]
  refine confined_tryCatch (confined_fsUnlink p.file_outside) fun err => ?_
  split
  · exact confined_pure _
  · exact confined_throw _

private theorem confined_copyObject (hne : orgId ≠ other) (source target : JsString) :
    Confined ((tenantDir a other).map utf8Bytes)
      (a.copyObject (storageKey orgId.text [source]) (storageKey orgId.text [target])) := by
  obtain ⟨file,dir,hsrc,src⟩ := places (a := a) hne source
  obtain ⟨file',dir',hdst,dst⟩ := places (a := a) hne target
  rw [LocalAdapter.copyObject,hsrc,hdst,dst.dirname_eq]
  exact confined_bind (confined_fsMkdir dst.dir_outside) fun _ => confined_fsCopyFile src.file_outside dst.file_outside

/-- No call for a tenant reads or writes below the directory of another. -/
theorem tenantCall_confined (hne : orgId ≠ other) (call : TenantCall) :
    Confined ((tenantDir a other).map utf8Bytes) (call.run a orgId) := by
  cases call with
  | put path body now random => exact confined_bind (confined_putObject hne path body now random) fun _ => confined_pure _
  | stream path range => exact confined_bind (confined_getStream hne path range) fun _ => confined_pure _
  | head path => exact confined_bind (confined_headObject hne path) fun _ => confined_pure _
  | remove path => exact confined_bind (confined_deleteObject hne path) fun _ => confined_pure _
  | copy source target => exact confined_bind (confined_copyObject hne source target) fun _ => confined_pure _

/-- The confinement of a tenant: its paths stay in its directory below the root, those of two tenants
are never the same, as texts and as files, and its calls leave the others alone. -/
structure TenantConfined (a : LocalAdapter) (orgId : UuidText) : Prop where
  root : resolve a.cwd [a.root] = render (rootNames a.cwd a.root)
  below : ∀ path, ∃ names, (∀ name ∈ names, IsName name) ∧
    a.path (storageKey orgId.text [path]) = render (rootNames a.cwd a.root ++ [js "org",orgId.text] ++ names)
  apart : ∀ other ≠ orgId, ∀ path path' : JsString, a.path (storageKey orgId.text [path]) ≠ a.path (storageKey other.text [path']) ∧
    ∀ q, osPath (a.path (storageKey orgId.text [path])) = .ok q → osPath (a.path (storageKey other.text [path'])) ≠ .ok q
  confined : ∀ other ≠ orgId, ∀ call : TenantCall, Confined ((tenantDir a other).map utf8Bytes) (call.run a orgId)

theorem tenant_confined (a : LocalAdapter) (orgId : UuidText) : TenantConfined a orgId where
  root := by
    have hroot : resolve a.cwd [a.root] = _ := resolve_below a.cwd_absolute fun s hs => absurd hs List.not_mem_nil
    rw [hroot]
    simp
  below path := ⟨tenantNames path,tenantNames_names path,path_storageKey a orgId path⟩
  apart other hne path path' := by
    have hout := below_outside (a := a) (Ne.symm hne) (tenantNames_names path)
    have hother := below_outside (a := a) hne (tenantNames_names path')
    constructor
    · intro heq
      rw [path_storageKey,path_storageKey] at heq
      have hnames := render_injective hout.1 hother.1 heq
      refine hout.2 ?_
      rw [hnames,List.map_append]
      exact List.prefix_append _ _
    · intro q hq hq'
      rw [path_storageKey] at hq hq'
      refine hout.2 ?_
      rw [← osPath_render hout.1 hq,osPath_render hother.1 hq',List.map_append]
      exact List.prefix_append _ _
  confined other hne call := tenantCall_confined (Ne.symm hne) call

end Tenants

end JustMail.Storage.Local
