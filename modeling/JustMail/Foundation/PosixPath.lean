import JustMail.Foundation.CodeUnits
import JustMail.Foundation.Folding

/-! Path names: `resolve`, `normalize`, `join` and `dirname` of `node:path` on POSIX systems. -/
namespace JustMail.Foundation.PosixPath

def slash : CodeUnit := unit '/'
def dot : JsString := js "."
def dotdot : JsString := js ".."

/-- A segment behind those that are kept already. -/
def pushSegment (allowAboveRoot : Bool) (kept : List JsString) (segment : JsString) : List JsString :=
  if segment = [] ∨ segment = dot then kept
  else if segment = dotdot then
    if kept.getLast?.any (· ≠ dotdot) then kept.dropLast
    else if allowAboveRoot then kept ++ [dotdot]
    else kept
  else kept ++ [segment]

def keptSegments (allowAboveRoot : Bool) (s : JsString) : List JsString :=
  (s.splitOn slash).foldl (pushSegment allowAboveRoot) []

/-- `normalizeString`. -/
def normalizeString (allowAboveRoot : Bool) (s : JsString) : JsString := [slash].intercalate (keptSegments allowAboveRoot s)

def isAbsolute (s : JsString) : Bool := s.head? = some slash

/-- The arguments of `resolve` from the last to the first, up to one that is absolute. -/
def resolveLoop : List JsString → JsString → Bool → JsString × Bool
  | [],resolvedPath,resolvedAbsolute => (resolvedPath,resolvedAbsolute)
  | path :: rest,resolvedPath,resolvedAbsolute =>
    if resolvedAbsolute then (resolvedPath,resolvedAbsolute)
    else if path = [] then resolveLoop rest resolvedPath resolvedAbsolute
    else resolveLoop rest (path ++ slash :: resolvedPath) (isAbsolute path)

/-- `resolve(...args)` in the working directory `cwd`. -/
def resolve (cwd : JsString) (args : List JsString) : JsString :=
  let resolved := resolveLoop (args.reverse ++ [cwd]) [] false
  let normalised := normalizeString (!resolved.2) resolved.1
  if resolved.2 then slash :: normalised else if normalised = [] then dot else normalised

/-- `normalize(s)`. -/
def normalize (s : JsString) : JsString :=
  if s = [] then dot
  else
    let trailing := s.getLast? = some slash
    let normalised := normalizeString (!isAbsolute s) s
    if normalised = [] then if isAbsolute s then [slash] else if trailing then js "./" else dot
    else (if isAbsolute s then [slash] else []) ++ normalised ++ if trailing then [slash] else []

/-- `join(...args)`. -/
def join (args : List JsString) : JsString :=
  let parts := args.filter (· ≠ [])
  if parts = [] then dot else normalize ([slash].intercalate parts)

/-- `dirname(s)`. The slash that ends it is looked for behind the first unit, and not among those at the end. -/
def dirname (s : JsString) : JsString :=
  if s = [] then dot
  else
    let front := (s.tail.rdropWhile (· = slash)).rdropWhile (· ≠ slash)
    if front = [] then if isAbsolute s then [slash] else dot
    else if isAbsolute s ∧ front.length = 1 then [slash,slash]
    else s.take front.length

section Segments
variable {kept segments : List JsString} {segment s t : JsString} {allow : Bool}

/-- A name of an entry in a directory. -/
def IsName (s : JsString) : Prop := s ≠ [] ∧ s ≠ dot ∧ s ≠ dotdot ∧ slash ∉ s

instance (s : JsString) : Decidable (IsName s) := inferInstanceAs (Decidable (_ ∧ _))

/-- The absolute path of names. -/
def render (names : List JsString) : JsString := slash :: [slash].intercalate names

theorem pushSegment_name (h : IsName segment) : pushSegment allow kept segment = kept ++ [segment] := by
  rw [pushSegment,if_neg (not_or.mpr ⟨h.1,h.2.1⟩),if_neg h.2.2.1]

theorem pushSegment_skip (h : segment = [] ∨ segment = dot) : pushSegment allow kept segment = kept := if_pos h

theorem foldl_names (h : ∀ s ∈ segments, IsName s) (kept : List JsString) :
    segments.foldl (pushSegment allow) kept = kept ++ segments := by
  induction segments generalizing kept with
  | nil => simp
  | cons s segments ih =>
    rw [List.foldl_cons,pushSegment_name (h s List.mem_cons_self),ih fun t ht => h t (List.mem_cons_of_mem s ht)]
    simp

theorem foldl_noUp (h : ∀ s ∈ segments, s ≠ dotdot ∧ slash ∉ s) (kept : List JsString) :
    segments.foldl (pushSegment allow) kept = kept ++ segments.filter fun s => s ≠ [] ∧ s ≠ dot := by
  induction segments generalizing kept with
  | nil => simp
  | cons s segments ih =>
    have hs := h s List.mem_cons_self
    rw [List.foldl_cons,ih fun t ht => h t (List.mem_cons_of_mem s ht)]
    by_cases hskip : s = [] ∨ s = dot
    · rw [pushSegment_skip hskip,List.filter_cons_of_neg]
      rcases hskip with hskip | hskip <;> simp [hskip]
    · rw [pushSegment_name ⟨fun h => hskip (.inl h),fun h => hskip (.inr h),hs⟩,List.filter_cons_of_pos]
      · simp
      · simpa [not_or] using hskip

/-- Nothing but names is kept below the root. -/
theorem keptSegments_names (s : JsString) : ∀ name ∈ keptSegments false s, IsName name := by
  have hfold : ∀ (segments kept : List JsString), (∀ t ∈ segments, slash ∉ t) → (∀ name ∈ kept, IsName name) →
      ∀ name ∈ segments.foldl (pushSegment false) kept, IsName name := by
    intro segments
    induction segments with
    | nil => exact fun _ _ hkept => hkept
    | cons t segments ih =>
      intro kept hsegments hkept
      refine ih _ (fun u hu => hsegments u (List.mem_cons_of_mem t hu)) ?_
      rw [pushSegment]
      split
      · exact hkept
      · rename_i hempty
        rw [not_or] at hempty
        split
        · split
          · exact fun name hname => hkept name (List.mem_of_mem_dropLast hname)
          · rw [if_neg (by decide)]
            exact hkept
        · rename_i hup
          intro name hname
          rcases List.mem_append.mp hname with hname | hname
          · exact hkept name hname
          · rw [List.mem_singleton.mp hname]
            exact ⟨hempty.1,hempty.2,hup,hsegments t List.mem_cons_self⟩
  exact hfold _ [] (fun t ht => notMem_of_mem_splitOn ht) fun name hname => absurd hname List.not_mem_nil

theorem keptSegments_append (s t : JsString) :
    keptSegments allow (s ++ slash :: t) = (t.splitOn slash).foldl (pushSegment allow) (keptSegments allow s) := by
  rw [keptSegments,keptSegments,List.splitOn_append_cons_self,List.foldl_append]

theorem intercalate_snoc (names : List JsString) (name : JsString) :
    [slash].intercalate (names ++ [name]) = names.flatMap (· ++ [slash]) ++ name := by
  induction names with
  | nil => simp
  | cons n names ih =>
    rw [List.cons_append,List.intercalate_cons_of_ne_nil (by simp),ih,List.flatMap_cons]
    simp

theorem keptSegments_intercalate (h : ∀ s ∈ segments, IsName s) : keptSegments allow ([slash].intercalate segments) = segments := by
  by_cases hne : segments = []
  · rw [hne]
    rfl
  · rw [keptSegments,List.splitOn_intercalate slash (fun s hs => (h s hs).2.2.2) hne,foldl_names h,List.nil_append]

theorem keptSegments_render (h : ∀ s ∈ segments, IsName s) : keptSegments allow (render segments) = segments := by
  have hroot : keptSegments allow ([] ++ slash :: [slash].intercalate segments) = _ :=
    keptSegments_append [] ([slash].intercalate segments)
  rw [List.nil_append] at hroot
  rw [render,hroot,show keptSegments allow [] = [] from rfl]
  exact keptSegments_intercalate h

theorem render_injective {names others : List JsString} (h : ∀ s ∈ names, IsName s) (h' : ∀ s ∈ others, IsName s)
    (heq : render names = render others) : names = others := by
  have hkept : keptSegments false (render names) = names := keptSegments_render h
  rw [← hkept,heq,keptSegments_render h']

end Segments
section Resolve
variable {cwd root : JsString} {segments : List JsString}

/-- Where the last argument of all starts from, if it is a name. -/
def base (cwd root : JsString) : JsString :=
  if root = [] then cwd else if isAbsolute root then root else cwd ++ slash :: root

/-- The names of the directory `resolve(root)`. -/
def rootNames (cwd root : JsString) : List JsString := keptSegments false (base cwd root)

theorem rootNames_names (cwd root : JsString) : ∀ name ∈ rootNames cwd root, IsName name := keptSegments_names _

private theorem resolveLoop_segments (h : ∀ s ∈ segments, s ≠ [] ∧ slash ∉ s) (rest : List JsString) (acc : JsString) :
    resolveLoop (segments.reverse ++ rest) acc false = resolveLoop rest (segments.flatMap (· ++ [slash]) ++ acc) false := by
  induction segments using List.reverseRecOn generalizing acc with
  | nil => rfl
  | append_singleton segments s ih =>
    obtain ⟨hne,hslash⟩ := h s (by simp)
    have hrelative : isAbsolute s = false := by
      rw [isAbsolute,decide_eq_false_iff_not]
      intro hhead
      exact hslash (List.mem_of_mem_head? hhead)
    rw [List.reverse_append,List.reverse_singleton,List.singleton_append,List.cons_append,resolveLoop,if_neg Bool.false_ne_true,
      if_neg hne,hrelative,ih (fun t ht => h t (List.mem_append_left _ ht))]
    simp

private theorem resolveLoop_base (hcwd : isAbsolute cwd = true) (acc : JsString) :
    resolveLoop [root,cwd] acc false = (base cwd root ++ slash :: acc,true) := by
  have hne : cwd ≠ [] := by
    rintro rfl
    cases hcwd
  have hlast : ∀ acc, resolveLoop [cwd] acc false = (cwd ++ slash :: acc,true) := by
    intro acc
    rw [resolveLoop,if_neg Bool.false_ne_true,if_neg hne,hcwd]
    rfl
  rw [resolveLoop,if_neg Bool.false_ne_true,base]
  split
  · exact hlast acc
  · cases habs : isAbsolute root with
    | true => rfl
    | false =>
      rw [hlast,if_neg Bool.false_ne_true]
      simp

private theorem splitOn_flat (h : ∀ s ∈ segments, slash ∉ s) :
    (segments.flatMap (· ++ [slash])).splitOn slash = segments ++ [[]] := by
  induction segments with
  | nil => rfl
  | cons s segments ih =>
    rw [List.flatMap_cons,List.append_assoc,List.singleton_append,
      List.splitOn_append_cons_self_of_not_mem (h s List.mem_cons_self),ih fun t ht => h t (List.mem_cons_of_mem s ht)]
    rfl

/-- Segments that do not go up lead below the root; those that stay are dropped. -/
theorem resolve_below (hcwd : isAbsolute cwd = true) (h : ∀ s ∈ segments, s ≠ [] ∧ s ≠ dotdot ∧ slash ∉ s) :
    resolve cwd (root :: segments) = render (rootNames cwd root ++ segments.filter (· ≠ dot)) := by
  have hloop : resolveLoop ((root :: segments).reverse ++ [cwd]) [] false =
      (base cwd root ++ slash :: segments.flatMap (· ++ [slash]),true) := by
    rw [List.reverse_cons,List.append_assoc,List.singleton_append,resolveLoop_segments fun s hs => ⟨(h s hs).1,(h s hs).2.2⟩,
      resolveLoop_base hcwd,List.append_nil]
  have hkept : keptSegments false (base cwd root ++ slash :: segments.flatMap (· ++ [slash])) =
      rootNames cwd root ++ segments.filter (· ≠ dot) := by
    rw [keptSegments_append,splitOn_flat fun s hs => (h s hs).2.2,List.foldl_append,foldl_noUp fun s hs => (h s hs).2,
      List.foldl_cons,List.foldl_nil,pushSegment_skip (.inl rfl)]
    refine congrArg (rootNames cwd root ++ ·) (List.filter_congr fun s hs => ?_)
    simp [(h s hs).1]
  rw [resolve,hloop,Bool.not_true]
  dsimp only
  rw [if_pos rfl,normalizeString,hkept]
  rfl

end Resolve

section Join
variable {names : List JsString} {name : JsString}

/-- A name joined to a directory. -/
theorem join_render (h : ∀ s ∈ names, IsName s) (hname : IsName name) : join [render names,name] = render (names ++ [name]) := by
  have hall : ∀ s ∈ names ++ [name], IsName s := by
    intro s hs
    rcases List.mem_append.mp hs with hs | hs
    · exact h s hs
    · rw [List.mem_singleton.mp hs]
      exact hname
  have htext : [slash].intercalate ([render names,name].filter (· ≠ [])) = render names ++ slash :: name := by
    rw [List.filter_cons_of_pos (by simp [render]),List.filter_cons_of_pos (by simpa using hname.1),List.filter_nil]
    simp [List.intercalate]
  have hparts : [render names,name].filter (· ≠ []) ≠ [] := by
    rw [List.filter_cons_of_pos (by simp [render])]
    exact List.cons_ne_nil _ _
  have habs : isAbsolute (render names ++ slash :: name) = true := rfl
  have hkept : keptSegments false (render names ++ slash :: name) = names ++ [name] := by
    rw [keptSegments_append,keptSegments_render h,List.splitOn_eq_singleton hname.2.2.2]
    exact pushSegment_name hname
  have hlast : (render names ++ slash :: name).getLast? ≠ some slash := by
    obtain ⟨front,c,rfl⟩ := List.eq_nil_or_concat name |>.resolve_left hname.1
    rw [List.concat_eq_append,← List.cons_append,← List.append_assoc,List.getLast?_concat]
    intro heq
    cases heq
    exact hname.2.2.2 (by simp)
  have hnormal : normalizeString false (render names ++ slash :: name) ≠ [] := by
    rw [normalizeString,hkept,intercalate_snoc]
    exact List.append_ne_nil_of_right_ne_nil _ hname.1
  rw [join,if_neg hparts,htext,normalize,if_neg (by simp [render]),habs,Bool.not_true]
  dsimp only
  rw [if_neg hnormal,if_pos rfl,if_neg hlast,List.append_nil,normalizeString,hkept]
  rfl

theorem dirname_render (h : ∀ s ∈ names, IsName s) (hname : IsName name) : dirname (render (names ++ [name])) = render names := by
  have htail : (render (names ++ [name])).tail = names.flatMap (· ++ [slash]) ++ name := by
    rw [render,List.tail_cons,intercalate_snoc]
  have hstem : (names.flatMap (· ++ [slash]) ++ name).rdropWhile (· = slash) = names.flatMap (· ++ [slash]) ++ name := by
    obtain ⟨front,c,rfl⟩ := List.eq_nil_or_concat name |>.resolve_left hname.1
    have hc : c ≠ slash := by
      rintro rfl
      exact hname.2.2.2 (by simp)
    rw [List.concat_eq_append,← List.append_assoc,List.rdropWhile_concat_neg _ _ _ (by simpa using hc)]
  have hfront : (names.flatMap (· ++ [slash]) ++ name).rdropWhile (· ≠ slash) = names.flatMap (· ++ [slash]) := by
    have hall : ∀ c ∈ name, decide (c ≠ slash) = true := fun c hc => decide_eq_true fun heq => hname.2.2.2 (heq ▸ hc)
    rw [List.rdropWhile,List.reverse_append,List.dropWhile_append_of_pos (by simpa using hall)]
    rcases List.eq_nil_or_concat names with rfl | ⟨init,last,rfl⟩
    · rfl
    · simp
  rw [dirname,if_neg (by simp [render]),htail,hstem]
  dsimp only
  rw [hfront]
  rcases List.eq_nil_or_concat names with rfl | ⟨init,last,rfl⟩
  · rfl
  · rw [List.concat_eq_append] at h hfront ⊢
    have hlast := h last (by simp)
    have hlen : ((init ++ [last]).flatMap (· ++ [slash])).length = (slash :: (init.flatMap (· ++ [slash]) ++ last)).length := by
      rw [List.flatMap_append,List.flatMap_singleton,← List.append_assoc,List.length_append,List.length_cons]
      rfl
    have htext : render (init ++ [last] ++ [name]) = (slash :: (init.flatMap (· ++ [slash]) ++ last)) ++ slash :: name := by
      rw [render,intercalate_snoc]
      simp
    rw [if_neg (by simp),if_neg,hlen,htext,List.take_left,render,intercalate_snoc]
    rintro ⟨-,hone⟩
    rw [hlen,List.length_cons,List.length_append] at hone
    exact hlast.1 (List.length_eq_zero_iff.mp (by omega))

end Join

end JustMail.Foundation.PosixPath
