import JustMail.Foundation.CodeUnits
import JustMail.Foundation.Json

/-! Lists of users and groups for a directory (`scim.service.ts`): the filter of the request, the rows that the
database selects, and the page that is asked for. -/
namespace JustMail.Accounts.ScimListing
open Foundation

def SP : CodeUnit := 32
def QUOTE : CodeUnit := unit '"'
def COLON : CodeUnit := unit ':'

section Filters
variable {c : CodeUnit}

/-- `\s+`. -/
def skipSpaces (s : JsString) : Option JsString := if s.takeWhile isSpace = [] then none else some (s.dropWhile isSpace)

/-- `eq`, in either case. -/
def skipEq : JsString → Option JsString
  | a :: b :: s => if asciiLower a = unit 'e' ∧ asciiLower b = unit 'q' then some s else none
  | _ => none

/-- `"([^"]*)"\s*$`. -/
def lastQuoted : JsString → Option JsString
  | [] => none
  | c :: s => if c = QUOTE then (cut QUOTE s).bind fun p => if p.2.all isSpace then some p.1 else none else none

/-- `/^\s*(\w+)\s+eq\s+"([^"]*)"\s*$/i`, with its two groups. -/
def parseEqFilter (filter : Option JsString) : Option (JsString × JsString) := do
  let f ← filter
  let s := f.dropWhile isSpace
  let attr := s.takeWhile isWord
  if attr = [] then none
  else do
    let s ← skipSpaces (s.dropWhile isWord)
    let s ← skipEq s
    let s ← skipSpaces s
    let value ← lastQuoted s
    pure (attr,value)

/-- A unit of an attribute path: a name, a subattribute, or the URI of a schema before it. -/
def isPathUnit (c : CodeUnit) : Bool := isWord c || (js "-.~:/?#[]@!$&'()*+,;=%").contains c

/-- `attrPath eq value`, the value as JSON text between its quotes and as what it stands for. -/
structure EqFilter where
  path : JsString
  operator : JsString
  literal : JsString
  value : JsString
  path_ne : path ≠ []
  path_units : ∀ c ∈ path, isPathUnit c = true
  operator_eq : operator ∈ [js "eq",js "Eq",js "eQ",js "EQ"]
  decodes : JsonText.stringBody (literal ++ [QUOTE]) = some (value,[])

def EqFilter.render (f : EqFilter) : JsString := f.path ++ SP :: (f.operator ++ SP :: QUOTE :: (f.literal ++ [QUOTE]))

theorem pathUnit_not_space (h : isPathUnit c = true) : isSpace c = false := by
  rw [isPathUnit,Bool.or_eq_true] at h
  rcases h with hword | hmark
  · rw [← Bool.not_eq_true]
    exact fun hspace => absurd (isSpace_not_isWord hspace) (by simp [hword])
  · have hall : ∀ c ∈ js "-.~:/?#[]@!$&'()*+,;=%", isSpace c = false := by decide
    exact hall c (List.contains_iff_mem.mp hmark)

theorem skipSpaces_one {s : JsString} (h : isSpace c = false) : skipSpaces (SP :: c :: s) = some (c :: s) := by
  have hspace : isSpace SP = true := by decide
  rw [skipSpaces,List.takeWhile_cons_of_pos hspace,if_neg (List.cons_ne_nil _ _),List.dropWhile_cons_of_pos hspace,
    List.dropWhile_cons_of_neg (by simp [h])]

theorem skipSpaces_none {s : JsString} (h : isSpace c = false) : skipSpaces (c :: s) = none := by
  rw [skipSpaces,List.takeWhile_cons_of_neg (by simp [h]),if_pos rfl]

theorem lastQuoted_literal (literal : JsString) :
    lastQuoted (QUOTE :: (literal ++ [QUOTE])) = if QUOTE ∉ literal then some literal else none := by
  rw [lastQuoted,if_pos rfl]
  split
  · rename_i hquote
    rw [cut_append hquote]
    rfl
  · rename_i hquote
    obtain ⟨before,after,hliteral,hbefore⟩ := List.eq_append_cons_of_mem (not_not.mp hquote)
    have hrest : (after ++ [QUOTE]).all isSpace = false := by simp [show isSpace QUOTE = false by decide]
    rw [hliteral,List.append_assoc,List.cons_append,cut_append hbefore,Option.bind_some,hrest]
    rfl

theorem operator_spec {operator : JsString} (h : operator ∈ [js "eq",js "Eq",js "eQ",js "EQ"]) :
    ∃ a b, operator = [a,b] ∧ isSpace a = false ∧ asciiLower a = unit 'e' ∧ asciiLower b = unit 'q' := by
  simp only [List.mem_cons,List.not_mem_nil,or_false] at h
  rcases h with rfl | rfl | rfl | rfl
  · exact ⟨_,_,rfl,by decide,by decide,by decide⟩
  · exact ⟨_,_,rfl,by decide,by decide,by decide⟩
  · exact ⟨_,_,rfl,by decide,by decide,by decide⟩
  · exact ⟨_,_,rfl,by decide,by decide,by decide⟩

theorem span_path {path s : JsString} (h : path.all isWord = true) :
    (path ++ SP :: s).takeWhile isWord = path ∧ (path ++ SP :: s).dropWhile isWord = SP :: s := by
  refine span_run (List.all_eq_true.mp h) fun c hc => ?_
  cases hc
  rfl

/-- A path with another unit than those of words ends the word there, and no space follows. -/
theorem skipSpaces_path {path s : JsString} (hunits : ∀ c ∈ path, isPathUnit c = true) (h : ¬path.all isWord = true) :
    skipSpaces ((path ++ s).dropWhile isWord) = none := by
  induction path with
  | nil => exact absurd rfl h
  | cons c path ih =>
    obtain ⟨hc,hunits⟩ := List.forall_mem_cons.mp hunits
    cases hword : isWord c with
    | true =>
      rw [List.cons_append,List.dropWhile_cons_of_pos hword]
      exact ih hunits (by simpa [hword] using h)
    | false =>
      rw [List.cons_append,List.dropWhile_cons_of_neg (by simp [hword])]
      exact skipSpaces_none (pathUnit_not_space hc)

/-- What a filter of the form is read as. -/
theorem parseEqFilter_render (f : EqFilter) :
    parseEqFilter (some f.render) = if f.path.all isWord = true ∧ QUOTE ∉ f.literal then some (f.path,f.literal) else none := by
  obtain ⟨a,b,hoperator,hspace,ha,hb⟩ := operator_spec f.operator_eq
  obtain ⟨c,path,hpath⟩ := List.exists_cons_of_ne_nil f.path_ne
  have hstart : f.render.dropWhile isSpace = f.render := by
    rw [EqFilter.render,hpath,List.cons_append]
    exact List.dropWhile_cons_of_neg (by simp [pathUnit_not_space (f.path_units c (by rw [hpath]; exact List.mem_cons_self))])
  rw [parseEqFilter,Option.bind_eq_bind,Option.bind_some,hstart,EqFilter.render]
  dsimp only
  by_cases hword : f.path.all isWord = true
  · obtain ⟨htake,hdrop⟩ := span_path (s := f.operator ++ SP :: QUOTE :: (f.literal ++ [QUOTE])) hword
    have hafter : skipSpaces (SP :: (f.operator ++ SP :: QUOTE :: (f.literal ++ [QUOTE]))) =
      some (f.operator ++ SP :: QUOTE :: (f.literal ++ [QUOTE])) := by
      rw [hoperator]
      exact skipSpaces_one hspace
    have heq : skipEq (f.operator ++ SP :: QUOTE :: (f.literal ++ [QUOTE])) = some (SP :: QUOTE :: (f.literal ++ [QUOTE])) := by
      rw [hoperator]
      exact if_pos ⟨ha,hb⟩
    rw [htake,hdrop,if_neg f.path_ne,hafter]
    simp only [Option.bind_some,heq,skipSpaces_one (by decide : isSpace QUOTE = false),lastQuoted_literal,hword,true_and]
    split
    · rfl
    · rfl
  · have hnone : ¬(f.path.all isWord = true ∧ QUOTE ∉ f.literal) := fun hboth => hword hboth.1
    rw [skipSpaces_path f.path_units hword,if_neg hnone]
    split
    · rfl
    · rfl

end Filters
section Listing
variable {δ : Type}

/-- A row of `scim_users`; `displayName` is in its `raw` column, and `details` what else is shown to the directory. -/
structure UserRow (δ : Type) where
  id : Nat
  orgId : Nat
  externalId : Option JsString
  userName : JsString
  displayName : Option JsString
  createdAt : Nat
  details : δ

structure GroupRow (δ : Type) where
  id : Nat
  orgId : Nat
  externalId : Option JsString
  displayName : JsString
  createdAt : Nat
  details : δ

structure ListParams where
  filter : Option JsString
  startIndex : Option Nat
  count : Option Nat

structure ListResponse (ρ : Type) where
  totalResults : Nat
  startIndex : Nat
  itemsPerPage : Nat
  resources : List ρ

def listResponse {ρ : Type} (resources : List ρ) (params : ListParams) : ListResponse ρ :=
  let startIndex := max 1 (params.startIndex.getD 1)
  let count := params.count.getD resources.length
  let page := (resources.drop (startIndex - 1)).take count
  ⟨resources.length,startIndex,page.length,page⟩

variable (casing : CaseMapping) (lower : JsString → JsString) (orgId : Nat)

/-- The condition that a filter puts on users; `lower` is the function of the database. -/
def userCondition (filter : Option (JsString × JsString)) (r : UserRow δ) : Bool :=
  match filter with
  | none => true
  | some (attr,value) =>
    if attr = js "userName" then lower r.userName = casing.toLowerCase value
    else if attr = js "externalId" then r.externalId = some value
    else true

def groupCondition (filter : Option (JsString × JsString)) (r : GroupRow δ) : Bool :=
  match filter with
  | none => true
  | some (attr,value) => if attr = js "displayName" then lower r.displayName = casing.toLowerCase value else true

/-- `SELECT * FROM scim_users WHERE org_id = $1 AND .. ORDER BY created_at`. -/
def selectUsers (users : List (UserRow δ)) (filter : Option JsString) : List (UserRow δ) :=
  (users.filter fun r => r.orgId = orgId && userCondition casing lower (parseEqFilter filter) r).mergeSort fun r r' =>
    r.createdAt ≤ r'.createdAt

def selectGroups (groups : List (GroupRow δ)) (filter : Option JsString) : List (GroupRow δ) :=
  (groups.filter fun r => r.orgId = orgId && groupCondition casing lower (parseEqFilter filter) r).mergeSort fun r r' =>
    r.createdAt ≤ r'.createdAt

def listUsers (users : List (UserRow δ)) (params : ListParams) : ListResponse (UserRow δ) :=
  listResponse (selectUsers casing lower orgId users params.filter) params

def listGroups (groups : List (GroupRow δ)) (params : ListParams) : ListResponse (GroupRow δ) :=
  listResponse (selectGroups casing lower orgId groups params.filter) params

end Listing
section Meaning
variable {δ ρ : Type}

def USER_SCHEMA : JsString := js "urn:ietf:params:scim:schemas:core:2.0:User"
def GROUP_SCHEMA : JsString := js "urn:ietf:params:scim:schemas:core:2.0:Group"

def names (schema path name : JsString) : Bool :=
  path.map asciiLower = name.map asciiLower || path.map asciiLower = (schema ++ COLON :: name).map asciiLower

/-- What the attributes of a user are compared with; `other` says it of those that are not named here. -/
def UserRow.equals (lower : JsString → JsString) (other : JsString → JsString → UserRow δ → Bool)
    (path value : JsString) (r : UserRow δ) : Bool :=
  if names USER_SCHEMA path (js "userName") then lower r.userName = lower value
  else if names USER_SCHEMA path (js "externalId") then r.externalId = some value
  else if names USER_SCHEMA path (js "displayName") then r.displayName.any fun name => lower name = lower value
  else other path value r

def GroupRow.equals (lower : JsString → JsString) (other : JsString → JsString → GroupRow δ → Bool)
    (path value : JsString) (r : GroupRow δ) : Bool :=
  if names GROUP_SCHEMA path (js "externalId") then r.externalId = some value
  else if names GROUP_SCHEMA path (js "displayName") then lower r.displayName = lower value
  else other path value r

/-- The attributes of which nothing may be missed. -/
def isKnown (schema path : JsString) : Bool :=
  names schema path (js "userName") || names schema path (js "externalId") || names schema path (js "displayName")

/-- What is selected has the attribute, and everything that has it is selected where it is one of the known ones. -/
structure Sound (rows selected : List ρ) (org equals : ρ → Prop) (known : Bool) : Prop where
  only : ∀ r ∈ selected, r ∈ rows ∧ org r ∧ equals r
  all : known = true → ∀ r ∈ rows, org r → equals r → r ∈ selected

variable (casing : CaseMapping) (lower : JsString → JsString) (orgId : Nat)

/-- The filter is read as it is meant, or nothing depends on it. -/
def UsersMeant (other : JsString → JsString → UserRow δ → Bool) (users : List (UserRow δ)) (f : EqFilter) : Prop :=
  if f.path = js "userName" ∧ QUOTE ∉ f.literal then
    casing.toLowerCase f.literal = lower f.value ∨
      ∀ r ∈ users, r.orgId = orgId → lower r.userName ≠ casing.toLowerCase f.literal ∧ lower r.userName ≠ lower f.value
  else if f.path = js "externalId" ∧ QUOTE ∉ f.literal then
    f.literal = f.value ∨ ∀ r ∈ users, r.orgId = orgId → r.externalId ≠ some f.literal ∧ r.externalId ≠ some f.value
  else ∀ r ∈ users, r.orgId = orgId → r.equals lower other f.path f.value = true

def GroupsMeant (other : JsString → JsString → GroupRow δ → Bool) (groups : List (GroupRow δ)) (f : EqFilter) : Prop :=
  if f.path = js "displayName" ∧ QUOTE ∉ f.literal then
    casing.toLowerCase f.literal = lower f.value ∨
      ∀ r ∈ groups, r.orgId = orgId → lower r.displayName ≠ casing.toLowerCase f.literal ∧ lower r.displayName ≠ lower f.value
  else ∀ r ∈ groups, r.orgId = orgId → r.equals lower other f.path f.value = true

end Meaning
section Exactness
variable {δ ρ κ : Type} {rows selected : List ρ} {org equals : ρ → Prop} {known : Bool}

theorem sound_key_iff [DecidableEq κ] (key : ρ → κ) (read meant : κ) (hselected : ∀ r, r ∈ selected ↔ r ∈ rows ∧ org r ∧ key r = read)
    (hequals : ∀ r, equals r ↔ key r = meant) : Sound rows selected org equals true ↔
      read = meant ∨ ∀ r ∈ rows, org r → key r ≠ read ∧ key r ≠ meant := by
  constructor
  · rintro ⟨honly,hall⟩
    by_cases hread : read = meant
    · exact .inl hread
    · refine .inr fun r hr horg => ⟨fun hkey => hread ?_,fun hkey => hread ?_⟩
      · have hmeant := (hequals r).mp (honly r ((hselected r).mpr ⟨hr,horg,hkey⟩)).2.2
        rw [← hkey,hmeant]
      · have hselected' := (hselected r).mp (hall rfl r hr horg ((hequals r).mpr hkey))
        rw [← hselected'.2.2,hkey]
  · rintro (rfl | hnone)
    · exact ⟨fun r hr => (hselected r).mp hr |>.imp_right (And.imp_right (hequals r).mpr),
        fun _ r hr horg hr' => (hselected r).mpr ⟨hr,horg,(hequals r).mp hr'⟩⟩
    · refine ⟨fun r hr => ?_,fun _ r hr horg hr' => absurd ((hequals r).mp hr') (hnone r hr horg).2⟩
      obtain ⟨hmem,horg,hkey⟩ := (hselected r).mp hr
      exact absurd hkey (hnone r hmem horg).1

theorem sound_all_iff (hselected : ∀ r, r ∈ selected ↔ r ∈ rows ∧ org r) :
    Sound rows selected org equals known ↔ ∀ r ∈ rows, org r → equals r :=
  ⟨fun h r hr horg => (h.only r ((hselected r).mpr ⟨hr,horg⟩)).2.2,
    fun h => ⟨fun r hr => ⟨((hselected r).mp hr).1,((hselected r).mp hr).2,h r ((hselected r).mp hr).1 ((hselected r).mp hr).2⟩,
      fun _ r hr horg _ => (hselected r).mpr ⟨hr,horg⟩⟩⟩

end Exactness
section Directory
variable {δ ρ : Type} {casing : CaseMapping} {lower : JsString → JsString} {orgId : Nat}

theorem mem_selectUsers {users : List (UserRow δ)} {filter : Option JsString} {r : UserRow δ} :
    r ∈ selectUsers casing lower orgId users filter ↔
    r ∈ users ∧ r.orgId = orgId ∧ userCondition casing lower (parseEqFilter filter) r = true := by
  simp [selectUsers]

theorem mem_selectGroups {groups : List (GroupRow δ)} {filter : Option JsString} {r : GroupRow δ} :
    r ∈ selectGroups casing lower orgId groups filter ↔
    r ∈ groups ∧ r.orgId = orgId ∧ groupCondition casing lower (parseEqFilter filter) r = true := by
  simp [selectGroups]

theorem users_sound_iff (other : JsString → JsString → UserRow δ → Bool) (users : List (UserRow δ)) (f : EqFilter) :
    Sound users (selectUsers casing lower orgId users (some f.render)) (·.orgId = orgId)
    (fun r => r.equals lower other f.path f.value = true)
      (isKnown USER_SCHEMA f.path) ↔ UsersMeant casing lower orgId other users f := by
  have hparse := parseEqFilter_render f
  unfold UsersMeant
  split
  · rename_i hname
    rw [hname.1,if_pos ⟨by decide,hname.2⟩] at hparse
    have hknown : isKnown USER_SCHEMA f.path = true := by rw [hname.1]; decide
    rw [hknown]
    refine sound_key_iff (fun r : UserRow δ => lower r.userName) _ _ (fun r => ?_) fun r => ?_
    · rw [mem_selectUsers,hparse,userCondition,if_pos rfl,decide_eq_true_eq]
    · rw [UserRow.equals,hname.1,if_pos (by decide),decide_eq_true_eq]
  split
  · rename_i hname
    rw [hname.1,if_pos ⟨by decide,hname.2⟩] at hparse
    have hknown : isKnown USER_SCHEMA f.path = true := by rw [hname.1]; decide
    rw [hknown,← Option.some_inj]
    refine sound_key_iff (fun r : UserRow δ => r.externalId) _ _ (fun r => ?_) fun r => ?_
    · rw [mem_selectUsers,hparse,userCondition,if_neg (by decide),if_pos rfl,decide_eq_true_eq]
    · rw [UserRow.equals,hname.1,if_neg (by decide),if_pos (by decide),decide_eq_true_eq]
  · rename_i huserName hexternalId
    refine sound_all_iff fun r => ?_
    rw [mem_selectUsers,hparse]
    split
    · rename_i hread
      rw [userCondition,if_neg fun hname => huserName ⟨hname,hread.2⟩,if_neg fun hname => hexternalId ⟨hname,hread.2⟩]
      simp
    · simp [userCondition]

theorem groups_sound_iff (other : JsString → JsString → GroupRow δ → Bool) (groups : List (GroupRow δ)) (f : EqFilter) :
    Sound groups (selectGroups casing lower orgId groups (some f.render)) (·.orgId = orgId)
    (fun r => r.equals lower other f.path f.value = true)
      (isKnown GROUP_SCHEMA f.path) ↔ GroupsMeant casing lower orgId other groups f := by
  have hparse := parseEqFilter_render f
  unfold GroupsMeant
  split
  · rename_i hname
    rw [hname.1,if_pos ⟨by decide,hname.2⟩] at hparse
    have hknown : isKnown GROUP_SCHEMA f.path = true := by rw [hname.1]; decide
    rw [hknown]
    refine sound_key_iff (fun r : GroupRow δ => lower r.displayName) _ _ (fun r => ?_) fun r => ?_
    · rw [mem_selectGroups,hparse,groupCondition,if_pos rfl,decide_eq_true_eq]
    · rw [GroupRow.equals,hname.1,if_neg (by decide),if_pos (by decide),decide_eq_true_eq]
  · rename_i hdisplayName
    refine sound_all_iff fun r => ?_
    rw [mem_selectGroups,hparse]
    split
    · rename_i hread
      rw [groupCondition,if_neg fun hname => hdisplayName ⟨hname,hread.2⟩]
      simp
    · simp [groupCondition]

/-- Pages asked for one after the other, each where the last one ends. -/
def pagesFrom (page : Nat → Nat → List ρ) : Nat → List Nat → List (List ρ)
  | _, [] => []
  | start, count :: counts => page start count :: pagesFrom page (start + count) counts

/-- The pages from an index on are what follows it. -/
theorem pagesFrom_flatten {page : Nat → Nat → List ρ} {l : List ρ}
    (hpage : ∀ start count, 1 ≤ start → page start count = (l.drop (start - 1)).take count)
    (counts : List Nat) (start : Nat) (h : 1 ≤ start) : (pagesFrom page start counts).flatten = (l.drop (start - 1)).take counts.sum := by
  induction counts generalizing start with
  | nil => simp [pagesFrom]
  | cons count counts ih =>
    have hnext : (l.drop (start - 1)).drop count = l.drop (start + count - 1) := by
      rw [List.drop_drop]
      congr 1
      omega
    rw [pagesFrom,List.flatten_cons,hpage start count h,ih (start + count) (by omega),List.sum_cons,List.take_add,hnext]

theorem listResponse_page (resources : List ρ) (filter : Option JsString) (start count : Nat) (h : 1 ≤ start) :
    (listResponse resources ⟨filter,some start,some count⟩).resources = (resources.drop (start - 1)).take count := by
  rw [listResponse,Option.getD_some,Option.getD_some,Nat.max_eq_right h]

/-- Before, in and after the pages is the whole list. -/
theorem pages_partition (resources : List ρ) (filter : Option JsString) (start : Nat) (counts : List Nat) (h : 1 ≤ start) :
    resources.take (start - 1) ++
    (pagesFrom (fun start count => (listResponse resources ⟨filter,some start,some count⟩).resources) start counts).flatten ++
      resources.drop (start - 1 + counts.sum) = resources := by
  rw [pagesFrom_flatten (listResponse_page resources filter) counts start h,← List.drop_drop,List.append_assoc,List.take_append_drop,
    List.take_append_drop]

/-- A filter is sound where it is read as it is meant or nothing depends on it, for users and for groups; pages are. -/
theorem directory_lists_sound_iff (casing : CaseMapping) (lower : JsString → JsString) (orgId : Nat) :
    (∀ (other : JsString → JsString → UserRow δ → Bool) (users : List (UserRow δ)) (f : EqFilter),
      Sound users (selectUsers casing lower orgId users (some f.render)) (·.orgId = orgId)
      (fun r => r.equals lower other f.path f.value = true)
        (isKnown USER_SCHEMA f.path) ↔ UsersMeant casing lower orgId other users f) ∧
    (∀ (other : JsString → JsString → GroupRow δ → Bool) (groups : List (GroupRow δ)) (f : EqFilter),
      Sound groups (selectGroups casing lower orgId groups (some f.render)) (·.orgId = orgId)
      (fun r => r.equals lower other f.path f.value = true)
        (isKnown GROUP_SCHEMA f.path) ↔ GroupsMeant casing lower orgId other groups f) ∧
    (∀ (users : List (UserRow δ)) (filter : Option JsString) (start : Nat) (counts : List Nat), 1 ≤ start →
      let selected := selectUsers casing lower orgId users filter
      selected.take (start - 1) ++ (pagesFrom (fun start count =>
        (listUsers casing lower orgId users ⟨filter,some start,some count⟩).resources) start counts).flatten ++
        selected.drop (start - 1 + counts.sum) = selected) ∧
    ∀ (groups : List (GroupRow δ)) (filter : Option JsString) (start : Nat) (counts : List Nat), 1 ≤ start →
      let selected := selectGroups casing lower orgId groups filter
      selected.take (start - 1) ++ (pagesFrom (fun start count =>
        (listGroups casing lower orgId groups ⟨filter,some start,some count⟩).resources) start counts).flatten ++
        selected.drop (start - 1 + counts.sum) = selected :=
  ⟨users_sound_iff,groups_sound_iff,fun _ filter start counts h => pages_partition _ filter start counts h,
    fun _ filter start counts h => pages_partition _ filter start counts h⟩

def alice : UserRow Unit := ⟨7,1,none,js "alice@example.com",none,0,()⟩

/-- `username eq "bob"`: the name of the attribute in another case. -/
def probe : EqFilter := ⟨js "username",js "eq",js "bob",js "bob",by decide,by decide,by decide,rfl⟩

/-- Asked for Bob, the list has Alice. -/
theorem probe_answers_alice : alice ∈ selectUsers asciiCase asciiCase.toLowerCase 1 [alice] (some probe.render) ∧
    ¬∀ casing lower orgId other (users : List (UserRow Unit)) (f : EqFilter),
      Sound users (selectUsers casing lower orgId users (some f.render)) (·.orgId = orgId)
      (fun r => r.equals lower other f.path f.value = true)
        (isKnown USER_SCHEMA f.path) := by
  have hparse : parseEqFilter (some probe.render) = some (js "username",js "bob") := by
    rw [parseEqFilter_render]
    exact if_pos ⟨by decide,by decide⟩
  have hlisted : alice ∈ selectUsers asciiCase asciiCase.toLowerCase 1 [alice] (some probe.render) := by
    refine mem_selectUsers.mpr ⟨List.mem_cons_self,rfl,?_⟩
    rw [hparse,userCondition,if_neg (by decide),if_neg (by decide)]
  refine ⟨hlisted,fun h => ?_⟩
  have hequals := ((h asciiCase asciiCase.toLowerCase 1 (fun _ _ _ => false) [alice] probe).only alice hlisted).2.2
  have hname : names USER_SCHEMA probe.path (js "userName") = true := by decide
  rw [UserRow.equals,if_pos hname] at hequals
  exact absurd hequals (by decide)

end Directory
end JustMail.Accounts.ScimListing
