import JustMail.Foundation.Verdicts
import JustMail.Accounts.ScimRoles

/-! PATCH of a SCIM group. What the operations on `members` mean by RFC 7644 stands beside
what `patchGroup` reads of them: it passes over a value that is neither an object nor a
list, over `remove` without a value, and over operations without a path. -/
namespace JustMail.Accounts
open Foundation Postfix Program Verdicts

section Meaning
variable (cm : CaseMapping)

/-- An operation on the members of a group. -/
inductive MembersOp where
  | add (values : List JsString)
  | replace (values : List JsString)
  | removeAll
  | remove (values : List JsString)

/-- The SCIM users that the values name. -/
def namedIds (values : List JsString) : List Nat := values.filterMap uuidOf

/-- The member set after an operation. Users become members if the organisation knows them. -/
def MembersOp.apply (known : Nat → Prop) (members : Set Nat) : MembersOp → Set Nat
  | .add values => members ∪ { u | u ∈ namedIds values ∧ known u }
  | .replace values => { u | u ∈ namedIds values ∧ known u }
  | .removeAll => ∅
  | .remove values => members \ { u | u ∈ namedIds values }

def noValue : Option Json → Bool
  | none | some .null => true
  | _ => false

def givenValues : Option Json → List JsString
  | none | some .null => []
  | some (.array items) => items.map memberText
  | some v => [memberText v]

/-- The member of a path `members[value eq "id"]`. -/
def filteredMember (path : JsString) : Option JsString :=
  let rest := path.drop 18
  let id := rest.takeWhile (· != unit '"')
  if (path.take 18).map asciiLower = js "members[value eq \"" ∧ rest.drop id.length = js "\"]" ∧ id.isEmpty = false then some id else none

/-- What an operation on the members means. -/
def membersOp (op : PatchOp) : Option MembersOp :=
  let opName := cm.toLowerCase op.op
  if (given op.path).isNone then
    (op.value.bind (Json.field (js "members"))).bind fun members =>
      if opName = js "add" then some (.add (givenValues (some members)))
      else if opName = js "replace" then some (.replace (givenValues (some members)))
      else none
  else if (op.path.getD []).map asciiLower = js "members" then
    if opName = js "add" then some (.add (givenValues op.value))
    else if opName = js "replace" then some (.replace (givenValues op.value))
    else if opName = js "remove" then some (if noValue op.value then .removeAll else .remove (givenValues op.value))
    else none
  else if opName = js "remove" then (op.path.bind filteredMember).map fun id => .remove [id]
  else none

/-- The member set that a list of operations asks for. -/
def meantMembers (known : Nat → Prop) (operations : List PatchOp) (members : Set Nat) : Set Nat :=
  (operations.filterMap (membersOp cm)).foldl (MembersOp.apply known) members

/-- What `patchGroup` reads of an operation. -/
def readAs (op : PatchOp) : Option MembersOp :=
  let opName := cm.toLowerCase op.op
  if (js "members").isPrefixOf (cm.toLowerCase (op.path.getD [])) then
    let values := memberValues op.value
    if opName = js "add" then some (.add values)
    else if opName = js "remove" then some (.remove ((memberFromPath op.path).getD values))
    else if opName = js "replace" then some (.replace values)
    else none
  else none

def isScalar : Option Json → Bool
  | some (.bool _) | some (.number _) | some (.string _) => true
  | _ => false

/-- The forms that `patchGroup` passes over: no path, `remove` of all members, and a single
value that is no object. -/
def Overlooked (op : PatchOp) : Prop :=
  (given op.path).isNone = true ∨
  (op.path.getD []).map asciiLower = js "members" ∧
    (cm.toLowerCase op.op = js "remove" ∧ noValue op.value = true ∨ isScalar op.value = true)

/-- What an operation says of a user: a member, none, or nothing. -/
def MembersOp.verdict (known : Nat → Prop) [DecidablePred known] (u : Nat) : MembersOp → Option Bool
  | .add values => if u ∈ namedIds values ∧ known u then some true else none
  | .replace values => some (decide (u ∈ namedIds values ∧ known u))
  | .removeAll => some false
  | .remove values => if u ∈ namedIds values then some false else none

def verdictOf (known : Nat → Prop) [DecidablePred known] (op : Option MembersOp) (u : Nat) : Option Bool :=
  op.bind (MembersOp.verdict known u)

variable {known : Nat → Prop} [DecidablePred known]

theorem MembersOp.apply_eq (members : Set Nat) (op : MembersOp) : op.apply known members = settle members fun u => op.verdict known u := by
  ext u
  have hin : ∀ {b}, op.verdict known u = some b → (u ∈ settle members (fun u => op.verdict known u) ↔ b = true) :=
    fun h => settle_some (v := fun u => op.verdict known u) h
  have hout : op.verdict known u = none → (u ∈ settle members (fun u => op.verdict known u) ↔ u ∈ members) :=
    fun h => settle_none (v := fun u => op.verdict known u) h
  cases op with
  | add values =>
    by_cases h : u ∈ namedIds values ∧ known u
    · rw [hin (if_pos h)]
      exact iff_of_true (.inr h) rfl
    · rw [hout (if_neg h)]
      exact or_iff_left h
  | replace values =>
    rw [hin rfl,decide_eq_true_eq]
    rfl
  | removeAll =>
    rw [hin rfl]
    exact iff_of_false (Set.notMem_empty u) Bool.false_ne_true
  | remove values =>
    by_cases h : u ∈ namedIds values
    · rw [hin (if_pos h)]
      exact iff_of_false (fun hu => hu.2 h) Bool.false_ne_true
    · rw [hout (if_neg h)]
      exact and_iff_left h

theorem settle_verdict (members : Set Nat) (op : MembersOp) : settle members (verdictOf known (some op)) = op.apply known members :=
  (op.apply_eq members).symm

theorem settle_verdict_none (members : Set Nat) : settle members (verdictOf known none) = members := by
  ext u
  exact settle_none rfl

/-- The last operation that says something of a user decides. -/
theorem meantMembers_eq (operations : List PatchOp) (members : Set Nat) :
    meantMembers cm known operations members = settleAll members (operations.map fun op => verdictOf known (membersOp cm op)) := by
  rw [meantMembers]
  induction operations generalizing members with
  | nil => rfl
  | cons op rest ih =>
    rw [List.filterMap_cons]
    cases hop : membersOp cm op with
    | none => rw [ih,settleAll,settleAll,List.map_cons,List.foldl_cons,hop,settle_verdict_none]
    | some op' => rw [List.foldl_cons,ih,settleAll,settleAll,List.map_cons,List.foldl_cons,hop,settle_verdict]

end Meaning

section Reading
variable {cm : CaseMapping} {op : PatchOp} {text : JsString} {c : CodeUnit}

/-- Lower-casing goes through the ASCII letters at the start of a text one by one. -/
def LowersPrefixes (cm : CaseMapping) : Prop := ∀ s t : JsString, (∀ c ∈ s, c < 128) → s.map asciiLower <+: cm.toLowerCase (s ++ t)

theorem lowersPrefixes_asciiCase : LowersPrefixes asciiCase := by
  intro s t _
  exact ⟨t.map asciiLower,(List.map_append ..).symm⟩

theorem ascii_of_lower {s text : JsString} (h : s.map asciiLower = text) (htext : ∀ c ∈ text, c < 128) : ∀ c ∈ s, c < 128 := by
  intro c hc
  refine asciiLower_lt.mp (htext _ ?_)
  rw [← h]
  exact List.mem_map_of_mem hc

theorem isSpace_asciiLower (h : isSpace c = true) : asciiLower c = c := by
  refine if_neg fun hupper => ?_
  have hlo := UInt16.le_iff_toNat_le.mp hupper.1
  have hhi := UInt16.le_iff_toNat_le.mp hupper.2
  have hgraphic : isSpace c = false := by
    refine isSpace_of_graphic (UInt16.le_iff_toNat_le.mpr (Nat.le_trans ?_ hlo)) (UInt16.lt_iff_toNat_lt.mpr (Nat.lt_of_le_of_lt hhi ?_))
    · decide
    · decide
  simp [hgraphic] at h

theorem stripText_append {text t : JsString} (h : t.map asciiLower = text) (s : JsString) : stripText text (t ++ s) = some s := by
  have hlength : text.length = t.length := by rw [← h,List.length_map]
  rw [stripText,hlength,List.take_left,List.drop_left,if_pos h]

theorem stripText_short {text s : JsString} (h : s.length < text.length) : stripText text s = none := by
  refine if_neg fun htext => ?_
  have hlength := congrArg List.length htext
  rw [List.length_map,List.length_take] at hlength
  omega

theorem dropSpaces_append {t : JsString} (h : t.map asciiLower = c :: text) (hc : isSpace c = false) (s : JsString) :
    (t ++ s).dropWhile isSpace = t ++ s := by
  cases t with
  | nil => simp at h
  | cons a t =>
    have ha : isSpace a = false := by
      cases hspace : isSpace a with
      | false => rfl
      | true =>
        obtain ⟨hlower,-⟩ := List.cons.inj h
        rw [isSpace_asciiLower hspace] at hlower
        simp [← hlower,hspace] at hc
    exact List.dropWhile_cons_of_neg (by simp [ha])

theorem stripSpaces_append {t : JsString} (h : t.map asciiLower = c :: text) (hc : isSpace c = false)
    {sp : JsString} (hsp : sp.map asciiLower = [32]) (s : JsString) : stripSpaces (sp ++ (t ++ s)) = some (t ++ s) := by
  obtain ⟨a,rest,rfl,ha,hrest⟩ := List.map_eq_cons_iff.mp hsp
  obtain rfl := List.map_eq_nil_iff.mp hrest
  have hspace : a = 32 := by
    rw [asciiLower] at ha
    split at ha
    · rename_i hupper
      have hlo := UInt16.le_iff_toNat_le.mp hupper.1
      have hhi := UInt16.le_iff_toNat_le.mp hupper.2
      have hsum := congrArg UInt16.toNat ha
      simp at hlo hhi hsum
      omega
    · exact ha
  rw [hspace]
  change (if isSpace 32 then some ((t ++ s).dropWhile isSpace) else none) = _
  rw [dropSpaces_append h hc]
  rfl

/-- A filtered path in the form of the standard is read, and only the member in it. -/
theorem filteredMember_read (hcm : LowersPrefixes cm) {path id : JsString} (h : filteredMember path = some id) :
    memberFromPath (some path) = some [id] ∧ (js "members").isPrefixOf (cm.toLowerCase path) = true := by
  rw [filteredMember] at h
  split at h
  · rename_i hform
    obtain ⟨hhead,hend,hid⟩ := hform
    cases h
    have hsplit : js "members[value eq \"" = js "members" ++
      (js "[" ++ (js "value" ++ ([32] ++ (js "eq" ++ ([32] ++ js "\""))))) := by decide
    rw [hsplit] at hhead
    obtain ⟨m,r₁,hm₁,hm,h₁⟩ := List.map_eq_append_iff.mp hhead
    obtain ⟨br,r₂,rfl,hbr,h₂⟩ := List.map_eq_append_iff.mp h₁
    obtain ⟨v,r₃,rfl,hv,h₃⟩ := List.map_eq_append_iff.mp h₂
    obtain ⟨sp,r₄,rfl,hsp,h₄⟩ := List.map_eq_append_iff.mp h₃
    obtain ⟨eq,r₅,rfl,heq,h₅⟩ := List.map_eq_append_iff.mp h₄
    obtain ⟨sp',q,rfl,hsp',hq⟩ := List.map_eq_append_iff.mp h₅
    generalize hrest : path.drop 18 = rest at *
    have hpath : path = (m ++ br) ++ (v ++ (sp ++ (eq ++ (sp' ++ (q ++ rest))))) := by
      rw [← List.take_append_drop 18 path,hm₁,hrest]
      simp
    have hstarts : js "members" <+: cm.toLowerCase path := by
      have hlower := hcm m (br ++ (v ++ (sp ++ (eq ++ (sp' ++ (q ++ rest)))))) (ascii_of_lower hm (by decide))
      rwa [hm,← List.append_assoc,← hpath] at hlower
    refine ⟨?_,List.isPrefixOf_iff_prefix.mpr hstarts⟩
    have hbracket : (m ++ br).map asciiLower = js "members[" := by rw [List.map_append,hm,hbr]; rfl
    have hfilter : memberFilter path = some (rest.takeWhile (· != unit '"')) := by
      have hlast : rest.drop (rest.takeWhile (· != unit '"')).length = js "\"" ++ js "]" := hend
      rw [memberFilter,hpath,stripText_append hbracket]
      dsimp only [Option.bind_eq_bind,Option.bind_some]
      rw [dropSpaces_append hv (by decide),stripText_append hv]
      dsimp only [Option.bind_some]
      rw [stripSpaces_append heq (by decide) hsp,Option.bind_some,stripText_append heq,Option.bind_some,
        stripSpaces_append hq (by decide) hsp',Option.bind_some,stripText_append hq,Option.bind_some,hlast,stripText_append (by decide)]
      dsimp only [Option.bind_some]
      rw [if_neg (by simp [hid])]
      rfl
    have htails : path.tails.findSome? memberFilter = some (rest.takeWhile (· != unit '"')) := by
      cases hp : path with
      | nil =>
        rw [hp,show memberFilter [] = none by decide] at hfilter
        simp at hfilter
      | cons c t => rw [List.tails_cons,List.findSome?_cons,← hp,hfilter]
    rw [memberFromPath,Option.bind_some,htails]
    rfl
  · simp at h

theorem uuidOf_length (h : text.length ≠ 36) : uuidOf text = none := if_neg (by simp [Contacts.isUuid,h])

theorem uuidOf_falsy {value : Json} (h : value.truthy = false) : uuidOf value.text = none := by
  cases value with
  | null => exact uuidOf_length (by decide)
  | bool b => cases b <;> exact uuidOf_length (by decide)
  | number text =>
    have htext : text = js "0" := by simpa [Json.truthy] using h
    rw [htext]
    exact uuidOf_length (by decide)
  | string text =>
    have htext : text = [] := by simpa [Json.truthy] using h
    rw [htext]
    exact uuidOf_length (by decide)
  | array items => simp [Json.truthy] at h
  | object fields => simp [Json.truthy] at h

theorem namedIds_single (h : uuidOf text = none) : namedIds [text] = [] := by
  rw [namedIds,List.filterMap_cons,h]
  rfl

/-- A list and an object name the same users when they are read, a single value none. -/
theorem namedIds_memberValues (v : Option Json) : namedIds (memberValues v) = if isScalar v then [] else namedIds (givenValues v) := by
  rcases v with _ | v
  · rfl
  · cases v with
    | array items =>
      refine filterMap_filter_of_none fun value _ hempty => ?_
      obtain rfl : value = [] := by simpa using hempty
      exact uuidOf_length (by decide)
    | object fields =>
      change namedIds (((((Json.object fields).field (js "value")).filter Json.truthy)).toList.map Json.text) =
        namedIds [memberText (.object fields)]
      rw [memberText]
      cases (Json.object fields).field (js "value") with
      | none => exact (namedIds_single (uuidOf_length (by decide))).symm
      | some value =>
        cases htruthy : value.truthy with
        | false =>
          rw [Option.filter_some,if_neg (by simp [htruthy])]
          refine (namedIds_single ?_).symm
          cases value with
          | null => exact uuidOf_length (by decide)
          | _ => exact uuidOf_falsy htruthy
        | true =>
          rw [Option.filter_some,if_pos htruthy]
          cases value with
          | null => simp [Json.truthy] at htruthy
          | _ => rfl
    | _ => rfl

/-- The path `members` has no filter. -/
theorem memberFromPath_members {path : JsString} (h : path.map asciiLower = js "members") : memberFromPath (some path) = none := by
  have hlength : path.length = 7 := by
    have hlower := congrArg List.length h
    rwa [List.length_map] at hlower
  have hnone : path.tails.findSome? memberFilter = none := by
    refine List.findSome?_eq_none_iff.mpr fun s hs => ?_
    have hle := ((List.mem_tails _ _).mp hs).length_le
    rw [memberFilter,stripText_short]
    · rfl
    · rw [show (js "members[").length = 8 by decide]
      omega
  rw [memberFromPath,Option.bind_some,hnone]
  rfl

variable {known : Nat → Prop} [DecidablePred known] {m : MembersOp}

/-- An operation with the path `members` is read by its name. -/
theorem readAs_members (hpath : (op.path.getD []).map asciiLower = js "members") :
    readAs cm op =
      if cm.toLowerCase op.op = js "add" then some (.add (memberValues op.value))
      else if cm.toLowerCase op.op = js "remove" then some (.remove (memberValues op.value))
      else if cm.toLowerCase op.op = js "replace" then some (.replace (memberValues op.value))
      else none := by
  have hlower : cm.toLowerCase (op.path.getD []) = js "members" := by
    rw [cm.lower_ascii _ (ascii_of_lower hpath (by decide)),hpath]
  have hfilter : memberFromPath op.path = none := by
    cases hp : op.path with
    | none => rfl
    | some path =>
      rw [hp] at hpath
      exact memberFromPath_members hpath
  rw [readAs,hlower,hfilter,if_pos (by decide)]
  rfl

/-- What it means by its name. -/
theorem membersOp_members (hpath : (op.path.getD []).map asciiLower = js "members") :
    membersOp cm op =
      if cm.toLowerCase op.op = js "add" then some (.add (givenValues op.value))
      else if cm.toLowerCase op.op = js "replace" then some (.replace (givenValues op.value))
      else if cm.toLowerCase op.op = js "remove" then some (if noValue op.value then .removeAll else .remove (givenValues op.value))
      else none := by
  have hgiven : (given op.path).isNone = false := by
    cases hp : op.path with
    | none =>
      rw [hp] at hpath
      exact absurd hpath (by decide)
    | some path =>
      have hne : path.isEmpty = false := by
        cases path with
        | nil =>
          rw [hp] at hpath
          exact absurd hpath (by decide)
        | cons c rest => rfl
      simp [given,Option.filter_some,hne]
  rw [membersOp,hgiven,if_neg (by simp),if_pos hpath]

theorem readAs_pathless (h : (given op.path).isNone = true) : readAs cm op = none := by
  have hpath : op.path.getD [] = [] := by
    cases hp : op.path with
    | none => rfl
    | some path =>
      rw [hp] at h
      simpa [given,Option.filter_some] using h
  rw [readAs,hpath,cm.lower_ascii [] (by simp)]
  rfl

/-- What is not passed over is read as it is meant. -/
theorem read_as_meant (hcm : LowersPrefixes cm) (hop : membersOp cm op = some m) (hread : ¬Overlooked cm op) (u : Nat) :
    verdictOf known (readAs cm op) u = m.verdict known u := by
  rw [membersOp] at hop
  split at hop
  · rename_i hpath
    exact absurd (.inl hpath) hread
  · rename_i hpath
    split at hop
    · rename_i hmembers
      rw [readAs_members hmembers]
      have hscalar : isScalar op.value = false := Bool.eq_false_iff.mpr fun h => hread (.inr ⟨hmembers,.inr h⟩)
      have hids := namedIds_memberValues op.value
      rw [hscalar,if_neg (by simp)] at hids
      split at hop
      · rename_i hadd
        cases hop
        rw [if_pos hadd,verdictOf,Option.bind_some,MembersOp.verdict,MembersOp.verdict,hids]
      · rename_i hadd
        rw [if_neg hadd]
        split at hop
        · rename_i hreplace
          cases hop
          have hremove : cm.toLowerCase op.op ≠ js "remove" := by rw [hreplace]; decide
          rw [if_neg hremove,if_pos hreplace,verdictOf,Option.bind_some,MembersOp.verdict,MembersOp.verdict,hids]
        · split at hop
          · rename_i hremove
            have hvalue : noValue op.value = false := Bool.eq_false_iff.mpr fun h => hread (.inr ⟨hmembers,.inl ⟨hremove,h⟩⟩)
            rw [hvalue,if_neg (by simp)] at hop
            cases hop
            rw [if_pos hremove,verdictOf,Option.bind_some,MembersOp.verdict,MembersOp.verdict,hids]
          · simp at hop
    · split at hop
      · rename_i hremove
        obtain ⟨id,hid,rfl⟩ := Option.map_eq_some_iff.mp hop
        obtain ⟨path,hpath',hfilter⟩ := Option.bind_eq_some_iff.mp hid
        obtain ⟨hmember,hstarts⟩ := filteredMember_read hcm hfilter
        have hadd : cm.toLowerCase op.op ≠ js "add" := by rw [hremove]; decide
        rw [readAs,hpath']
        dsimp only [Option.getD_some]
        rw [if_pos hstarts,if_neg hadd,if_pos hremove,hmember]
        rfl
      · simp at hop

theorem namedIds_subset {v : Option Json} {u : Nat} (h : u ∈ namedIds (memberValues v)) : u ∈ namedIds (givenValues v) := by
  rw [namedIds_memberValues] at h
  split at h
  · simp at h
  · exact h

/-- An operation that means nothing to a user is not read as if it did. -/
theorem read_silent (hcm : LowersPrefixes cm)
    (hop : (membersOp cm op).isSome = true ∨ (js "members").isPrefixOf (cm.toLowerCase (op.path.getD [])) = false)
    {u : Nat} (hmeant : verdictOf known (membersOp cm op) u = none) : verdictOf known (readAs cm op) u = none := by
  rcases hop with hop | hop
  · obtain ⟨m,hm⟩ := Option.isSome_iff_exists.mp hop
    rw [hm] at hmeant
    by_cases hread : Overlooked cm op
    · rcases hread with hpath | ⟨hmembers,hvalue⟩
      · rw [readAs_pathless hpath]
        rfl
      · rw [membersOp_members hmembers] at hm
        rw [readAs_members hmembers]
        split at hm
        · rename_i hadd
          cases hm
          have hnot : ¬(u ∈ namedIds (givenValues op.value) ∧ known u) := fun h => by simp [verdictOf,MembersOp.verdict,h] at hmeant
          rw [if_pos hadd]
          exact if_neg fun h => hnot ⟨namedIds_subset h.1,h.2⟩
        · rename_i hadd
          split at hm
          · cases hm
            simp [verdictOf,MembersOp.verdict] at hmeant
          · split at hm
            · rename_i hremove
              cases hm
              split at hmeant
              · simp [verdictOf,MembersOp.verdict] at hmeant
              · have hnot : u ∉ namedIds (givenValues op.value) := fun h => by simp [verdictOf,MembersOp.verdict,h] at hmeant
                rw [if_neg hadd,if_pos hremove]
                exact if_neg fun h => hnot (namedIds_subset h)
            · simp at hm
    · exact (read_as_meant hcm hm hread u).trans hmeant
  · rw [readAs,if_neg (by simp [hop])]
    rfl

end Reading

section Effects
variable {cm : CaseMapping} {ctx : ScimContext} {groupId : Nat} {start db db' : DirectoryDb} {members : Set Nat}
variable {sids : List JsString} {group : ScimGroupRow} {u : Nat}

/-- The SCIM users in a group. -/
def memberIds (t : DirectoryTables) (groupId : Nat) : Set Nat := { u | ⟨groupId,u⟩ ∈ t.groupMembers.rows }

def KnownUser (ctx : ScimContext) (db : DirectoryDb) (u : Nat) : Prop :=
  ((db.val.scimUsers.lookup u).filter (·.orgId == ctx.orgId)).isSome = true

instance (ctx : ScimContext) (db : DirectoryDb) : DecidablePred (KnownUser ctx db) := fun _ => inferInstanceAs (Decidable (_ = true))

/-- In the course of a patch: the group has the given members, and besides memberships and its
name everything is as at the start. -/
structure Patching (groupId : Nat) (start : DirectoryDb) (members : Set Nat) (db : DirectoryDb) : Prop where
  accounts : db.val.accounts = start.val.accounts
  scimUsers : db.val.scimUsers = start.val.scimUsers
  group : ∀ g, start.val.scimGroups.lookup groupId = some g → ∃ g', db.val.scimGroups.lookup groupId = some g' ∧ g'.orgId = g.orgId
  others : ∀ g ∈ db.val.scimGroups.rows, g.id ≠ groupId → g ∈ start.val.scimGroups.rows
  members : memberIds db.val groupId = members

theorem Patching.refl (groupId : Nat) (db : DirectoryDb) : Patching groupId db (memberIds db.val groupId) db :=
  ⟨rfl,rfl,fun g hg => ⟨g,hg,rfl⟩,fun _ hg _ => hg,rfl⟩

theorem apply_of_consistent {w : RowWrite} {t : DirectoryTables} (ht : w.onTables db.val = some t) (h : t.Consistent) :
    w.apply db = some ⟨t,h⟩ := by
  rw [RowWrite.apply,ht]
  exact dif_pos h

/-- New memberships alone. -/
theorem Patching.membership (h : Patching groupId start members db) {rows : Table (id : GroupMemberRow → GroupMemberRow)}
    (hval : db'.val = { db.val with groupMembers := rows }) : Patching groupId start { u | ⟨groupId,u⟩ ∈ rows.rows } db' := by
  refine ⟨by rw [hval]; exact h.accounts,by rw [hval]; exact h.scimUsers,fun g hg => ?_,fun g hg => ?_,by rw [hval]; rfl⟩
  · rw [hval]
    exact h.group g hg
  · rw [hval] at hg
    exact h.others g hg

theorem mem_upsert_self {m m' : GroupMemberRow} {t : Table (id : GroupMemberRow → GroupMemberRow)} :
    m' ∈ (t.upsert m).rows ↔ m' = m ∨ m' ∈ t.rows := by
  have hrow : ∀ t : Table (id : GroupMemberRow → GroupMemberRow), m' ∈ t.rows ↔ t.lookup m' = some m' :=
    fun t => ⟨fun h => Table.lookup_of_mem h,fun h => (Table.lookup_eq_some.mp h).1⟩
  rw [hrow,hrow,Table.lookup_upsert]
  change (if m' = m then some m else t.lookup m') = some m' ↔ _
  by_cases hsame : m' = m
  · rw [if_pos hsame,hsame]
    simp
  · rw [if_neg hsame]
    simp [hsame]

theorem Patching.inserted (h : Patching groupId start members db)
    (hval : db'.val = { db.val with groupMembers := db.val.groupMembers.upsert ⟨groupId,u⟩ }) :
    Patching groupId start (insert u members) db' := by
  have hset : insert u members = { u' | ⟨groupId,u'⟩ ∈ (db.val.groupMembers.upsert ⟨groupId,u⟩).rows } := by
    rw [← h.members]
    ext u'
    simp only [Set.mem_insert_iff,Set.mem_ofPred_eq,mem_upsert_self,memberIds,GroupMemberRow.mk.injEq,true_and]
  rw [hset]
  exact h.membership hval

theorem Patching.deleted (h : Patching groupId start members db) {m : GroupMemberRow}
    (hval : db'.val = { db.val with groupMembers := db.val.groupMembers.deleteWhere (· == m) }) :
    Patching groupId start (members \ { u | ⟨groupId,u⟩ = m }) db' := by
  have hset : members \ { u | ⟨groupId,u⟩ = m } = { u | ⟨groupId,u⟩ ∈ (db.val.groupMembers.deleteWhere (· == m)).rows } := by
    rw [← h.members]
    ext u
    simp only [Set.mem_sdiff,Set.mem_ofPred_eq,memberIds,Table.deleteWhere,List.mem_filter,Bool.not_eq_true',beq_eq_false_iff_ne,ne_eq]
  rw [hset]
  exact h.membership hval

theorem insertGroupMember_lands (hgroup : (db.val.scimGroups.lookup groupId).isSome = true)
    (huser : (db.val.scimUsers.lookup u).isSome = true) :
    ∃ db', (RowWrite.insertGroupMember ⟨groupId,u⟩).apply db = some db' ∧
      db'.val = { db.val with groupMembers := db.val.groupMembers.upsert ⟨groupId,u⟩ } := by
  obtain ⟨hunique,hnames,hgroups,husers,hmembers,hlinks⟩ := db.property
  have hconsistent : DirectoryTables.Consistent { db.val with groupMembers := db.val.groupMembers.upsert ⟨groupId,u⟩ } := by
    refine ⟨hunique,hnames,hgroups,husers,fun m hm => ?_,hlinks⟩
    rcases mem_upsert_self.mp hm with rfl | hm
    · exact ⟨hgroup,huser⟩
    · exact hmembers m hm
  exact ⟨⟨_,hconsistent⟩,apply_of_consistent rfl hconsistent,rfl⟩

theorem deleteGroupMember_lands (m : GroupMemberRow) :
    ∃ db', (RowWrite.deleteGroupMember m).apply db = some db' ∧
      db'.val = { db.val with groupMembers := db.val.groupMembers.deleteWhere (· == m) } := by
  obtain ⟨hunique,hnames,hgroups,husers,hmembers,hlinks⟩ := db.property
  have hconsistent : DirectoryTables.Consistent { db.val with groupMembers := db.val.groupMembers.deleteWhere (· == m) } :=
    ⟨hunique,hnames,hgroups,husers,fun m hm => hmembers m (List.mem_filter.mp hm).1,hlinks⟩
  exact ⟨⟨_,hconsistent⟩,apply_of_consistent rfl hconsistent,rfl⟩

theorem returns_of_write {q : Sql} {w : RowWrite} (hq : (q.eval db.val).2 = [w]) (h : w.apply db = some db') :
    (query q).Returns db (q.eval db.val).1 db' := by
  refine returns_query.mpr ⟨?_,rfl⟩
  change directoryDatabase.land db (q.eval db.val).2 = some db'
  rw [hq,Database.land_cons]
  change (w.apply db).bind _ = _
  rw [h]
  rfl

theorem returns_of_read {q : Sql} (hq : (q.eval db.val).2 = []) : (query q).Returns db (q.eval db.val).1 db := by
  refine returns_query.mpr ⟨?_,rfl⟩
  change directoryDatabase.land db (q.eval db.val).2 = some db
  rw [hq]
  rfl

theorem namedIds_skip {sid : JsString} {rest : List JsString} (h : uuidOf sid = none) : namedIds (sid :: rest) = namedIds rest := by
  rw [namedIds,List.filterMap_cons,h]
  rfl

theorem namedIds_cons {sid : JsString} {rest : List JsString} (h : uuidOf sid = some u) : namedIds (sid :: rest) = u :: namedIds rest := by
  rw [namedIds,List.filterMap_cons,h]
  rfl

section Cons
variable {known : Nat → Prop} {sid : JsString} {rest : List JsString} {u : Nat}

theorem MembersOp.add_cons_unknown (hid : uuidOf sid = some u) (hunknown : ¬known u) :
    (MembersOp.add (sid :: rest)).apply known members = (MembersOp.add rest).apply known members := by
  rw [MembersOp.apply,MembersOp.apply,namedIds_cons hid]
  congr 1
  ext u'
  refine and_congr_left fun hknown => ?_
  have hne : u' ≠ u := fun heq => hunknown (heq ▸ hknown)
  simp [hne]

theorem MembersOp.add_cons_known (hid : uuidOf sid = some u) (hknown : known u) :
    (MembersOp.add (sid :: rest)).apply known members = (MembersOp.add rest).apply known (insert u members) := by
  rw [MembersOp.apply,MembersOp.apply,namedIds_cons hid]
  ext u'
  simp only [Set.mem_union,Set.mem_insert_iff,Set.mem_ofPred_eq,List.mem_cons]
  constructor
  · rintro (hmem | ⟨rfl | hmem,hu'⟩)
    · exact .inl (.inr hmem)
    · exact .inl (.inl rfl)
    · exact .inr ⟨hmem,hu'⟩
  · rintro ((rfl | hmem) | ⟨hmem,hu'⟩)
    · exact .inr ⟨.inl rfl,hknown⟩
    · exact .inl hmem
    · exact .inr ⟨.inr hmem,hu'⟩

theorem MembersOp.remove_cons (hid : uuidOf sid = some u) :
    (MembersOp.remove (sid :: rest)).apply known members = (MembersOp.remove rest).apply known (members \ {u}) := by
  rw [MembersOp.apply,MembersOp.apply,namedIds_cons hid]
  ext u'
  simp only [Set.mem_sdiff,Set.mem_singleton_iff,Set.mem_ofPred_eq,List.mem_cons,not_or]
  exact and_assoc.symm

end Cons

def HaveAccounts (db : DirectoryDb) (userIds : List Nat) : Prop := ∀ userId ∈ userIds, (db.val.accounts.users.lookup userId).isSome = true

theorem HaveAccounts.append {userIds userIds' : List Nat} (h : HaveAccounts db userIds) (h' : HaveAccounts db userIds') :
    HaveAccounts db (userIds ++ userIds') := by
  intro userId hmem
  rcases List.mem_append.mp hmem with hmem | hmem
  · exact h userId hmem
  · exact h' userId hmem

theorem haveAccounts_row {r : ScimUserRow} (hr : db.val.scimUsers.lookup u = some r) : HaveAccounts db [r.userId] := by
  intro userId hmem
  rw [List.mem_singleton.mp hmem]
  exact db.property.2.2.2.1 r (Table.lookup_eq_some.mp hr).1

theorem addMembers_returns (hgroup : (start.val.scimGroups.lookup groupId).isSome = true)
    (h : Patching groupId start members db) :
    ∃ userIds db', (ScimService.addMembers ctx groupId sids).Returns db userIds db' ∧
      Patching groupId start ((MembersOp.add sids).apply (KnownUser ctx start) members) db' ∧ HaveAccounts start userIds := by
  induction sids generalizing members db with
  | nil =>
    refine ⟨[],db,⟨rfl,rfl⟩,?_,by simp [HaveAccounts]⟩
    simpa [MembersOp.apply,namedIds] using h
  | cons sid rest ih =>
    rw [ScimService.addMembers]
    cases hid : uuidOf sid with
    | none =>
      rw [MembersOp.apply,namedIds_skip hid]
      exact ih h
    | some u =>
      have hread : (query (.scimUser ctx.orgId u)).Returns db ((db.val.scimUsers.lookup u).filter (·.orgId == ctx.orgId)) db :=
        returns_of_read rfl
      rw [h.scimUsers] at hread
      cases hfound : (start.val.scimUsers.lookup u).filter (·.orgId == ctx.orgId) with
      | none =>
        rw [hfound] at hread
        obtain ⟨userIds,db',hreturns,hpatching,haccounts⟩ := ih h
        refine ⟨userIds,db',returns_bind.mpr ⟨none,db,hread,hreturns⟩,?_,haccounts⟩
        rw [MembersOp.add_cons_unknown hid (by simp [KnownUser,hfound])]
        exact hpatching
      | some r =>
        rw [hfound] at hread
        have hlookup := (Option.filter_eq_some_iff.mp hfound).1
        have hexists : (db.val.scimGroups.lookup groupId).isSome = true := by
          obtain ⟨g,hg⟩ := Option.isSome_iff_exists.mp hgroup
          obtain ⟨g',hg',-⟩ := h.group g hg
          rw [hg']
          rfl
        obtain ⟨db₁,hrow,hval⟩ := insertGroupMember_lands hexists (u := u) (by rw [h.scimUsers,hlookup]; rfl)
        obtain ⟨userIds,db',hreturns,hpatching,haccounts⟩ := ih (h.inserted hval)
        refine ⟨r.userId :: userIds,db',returns_bind.mpr ⟨some r,db,hread,returns_bind.mpr ⟨_,db₁,returns_of_write rfl hrow,
          returns_bind.mpr ⟨userIds,db',hreturns,rfl,rfl⟩⟩⟩,?_,(haveAccounts_row hlookup).append haccounts⟩
        rw [MembersOp.add_cons_known hid (by simp [KnownUser,hfound])]
        exact hpatching

theorem removeMembers_returns (h : Patching groupId start members db) :
    ∃ userIds db', (ScimService.removeMembers ctx groupId sids).Returns db userIds db' ∧
      Patching groupId start ((MembersOp.remove sids).apply (KnownUser ctx start) members) db' ∧ HaveAccounts start userIds := by
  induction sids generalizing members db with
  | nil =>
    refine ⟨[],db,⟨rfl,rfl⟩,?_,by simp [HaveAccounts]⟩
    have hsame : (MembersOp.remove []).apply (KnownUser ctx start) members = members := by
      ext u
      simp [MembersOp.apply,namedIds]
    rw [hsame]
    exact h
  | cons sid rest ih =>
    rw [ScimService.removeMembers]
    cases hid : uuidOf sid with
    | none =>
      rw [MembersOp.apply,namedIds_skip hid]
      exact ih h
    | some u =>
      have hread : (query (.scimUser ctx.orgId u)).Returns db ((db.val.scimUsers.lookup u).filter (·.orgId == ctx.orgId)) db :=
        returns_of_read rfl
      rw [h.scimUsers] at hread
      obtain ⟨db₁,hrow,hval⟩ := deleteGroupMember_lands ⟨groupId,u⟩
      obtain ⟨userIds,db',hreturns,hpatching,haccounts⟩ := ih (h.deleted hval)
      refine ⟨_,db',returns_bind.mpr ⟨_,db,hread,returns_bind.mpr ⟨_,db₁,returns_of_write rfl hrow,
        returns_bind.mpr ⟨userIds,db',hreturns,rfl,rfl⟩⟩⟩,?_,HaveAccounts.append ?_ haccounts⟩
      · rw [MembersOp.remove_cons hid]
        have hone : { u' | (⟨groupId,u'⟩ : GroupMemberRow) = ⟨groupId,u⟩ } = {u} := by
          ext u'
          simp
        rw [hone] at hpatching
        exact hpatching
      · cases hfound : (start.val.scimUsers.lookup u).filter (·.orgId == ctx.orgId) with
        | none => simp [HaveAccounts]
        | some r => exact haveAccounts_row (Option.filter_eq_some_iff.mp hfound).1

theorem deleteGroupMembers_land (ms : List GroupMemberRow) (h : Patching groupId start members db) (hms : ∀ m ∈ ms, m.groupId = groupId) :
    ∃ db', directoryDatabase.land db (ms.map .deleteGroupMember) = some db' ∧
      Patching groupId start (members \ { u | ⟨groupId,u⟩ ∈ ms }) db' := by
  induction ms generalizing members db with
  | nil =>
    have hsame : members \ { u | ⟨groupId,u⟩ ∈ ([] : List GroupMemberRow) } = members := by
      ext u
      simp
    exact ⟨db,rfl,by rw [hsame]; exact h⟩
  | cons m rest ih =>
    obtain ⟨db₁,hrow,hval⟩ := deleteGroupMember_lands m
    obtain ⟨db',hland,hpatching⟩ := ih (h.deleted hval) fun m' hm' => hms m' (List.mem_cons_of_mem m hm')
    refine ⟨db',?_,?_⟩
    · rw [List.map_cons,Database.land_cons]
      change ((RowWrite.deleteGroupMember m).apply db).bind _ = _
      rw [hrow]
      exact hland
    · have hsame : members \ { u | ⟨groupId,u⟩ ∈ m :: rest } = (members \ { u | ⟨groupId,u⟩ = m }) \ { u | ⟨groupId,u⟩ ∈ rest } := by
        ext u
        simp only [Set.mem_sdiff,Set.mem_ofPred_eq,List.mem_cons,not_or]
        exact and_assoc.symm
      rw [hsame]
      exact hpatching

theorem setMembers_returns (hgroup : (start.val.scimGroups.lookup groupId).isSome = true)
    (h : Patching groupId start members db) :
    ∃ userIds db', (ScimService.setMembers ctx groupId sids).Returns db userIds db' ∧
      Patching groupId start ((MembersOp.replace sids).apply (KnownUser ctx start) members) db' ∧ HaveAccounts start userIds := by
  obtain ⟨db₁,hland,hcleared⟩ := deleteGroupMembers_land (db.val.groupMembers.rows.filter (·.groupId == groupId)) h
    fun m hm => by simpa using (List.mem_filter.mp hm).2
  have hempty : members \ { u | ⟨groupId,u⟩ ∈ db.val.groupMembers.rows.filter (·.groupId == groupId) } = ∅ := by
    rw [← h.members]
    ext u
    simp [memberIds]
  rw [hempty] at hcleared
  obtain ⟨userIds,db',hreturns,hpatching,haccounts⟩ := addMembers_returns hgroup hcleared
  refine ⟨userIds,db',returns_bind.mpr ⟨(),db₁,returns_query.mpr ⟨hland,rfl⟩,hreturns⟩,?_,haccounts⟩
  rw [MembersOp.apply,Set.empty_union] at hpatching
  exact hpatching

theorem memberUserIds_haveAccounts (h : Patching groupId start members db) (groupId' : Nat) :
    HaveAccounts start (memberUserIds db.val groupId') := by
  intro userId hmem
  obtain ⟨m,-,hm⟩ := List.mem_filterMap.mp hmem
  obtain ⟨r,hr,rfl⟩ := Option.map_eq_some_iff.mp hm
  rw [h.scimUsers] at hr
  exact haveAccounts_row hr r.userId List.mem_cons_self

/-- No other group of the organisation has a name that the operations set. -/
def RenamesFree (cm : CaseMapping) (group : ScimGroupRow) (db : DirectoryDb) (operations : List PatchOp) : Prop :=
  ∀ op ∈ operations, ∀ name ∈ valueDisplayName cm op, ∀ g ∈ db.val.scimGroups.rows, g.orgId = group.orgId → g.id ≠ group.id →
    db.val.accounts.lower g.displayName ≠ db.val.accounts.lower name

theorem updateScimGroup_lands (hgroup : start.val.scimGroups.lookup group.id = some group) {name : JsString}
    (hfree : ∀ g ∈ start.val.scimGroups.rows, g.orgId = group.orgId → g.id ≠ group.id →
      start.val.accounts.lower g.displayName ≠ start.val.accounts.lower name)
    (h : Patching group.id start members db) :
    ∃ db', (RowWrite.updateScimGroup group.id name none).apply db = some db' ∧ Patching group.id start members db' := by
  obtain ⟨hunique,hnames,hgroups,husers,hmembers,hlinks⟩ := db.property
  rw [← h.accounts] at hfree
  let rename (r : ScimGroupRow) : ScimGroupRow := { r with displayName := name, externalId := r.externalId }
  have hrename : ∀ r, (rename r).id = r.id := fun _ => rfl
  let groups := db.val.scimGroups.updateWhere (·.id == group.id) rename hrename
  have horg : ∀ g ∈ db.val.scimGroups.rows, g.id = group.id → g.orgId = group.orgId := by
    intro g hg hid
    obtain ⟨g',hg',horg⟩ := h.group group hgroup
    obtain ⟨hmem,hid'⟩ := Table.lookup_eq_some.mp hg'
    rw [Table.eq_of_key hg hmem (hid.trans hid'.symm),horg]
  have hdistinct : (groups.rows.map fun r => (r.orgId,db.val.accounts.lower r.displayName)).Nodup := by
    change ((db.val.scimGroups.rows.map fun r => if r.id == group.id then rename r else r).map fun r =>
      (r.orgId,db.val.accounts.lower r.displayName)).Nodup
    rw [List.map_map]
    refine List.Nodup.map_on (fun g hg g' hg' hkey => ?_) (List.Nodup.of_map _ db.val.scimGroups.unique)
    obtain ⟨horg',hname⟩ := Prod.mk.inj hkey
    dsimp only at horg' hname
    by_cases hid : g.id = group.id
    · by_cases hid' : g'.id = group.id
      · exact Table.eq_of_key hg hg' (hid.trans hid'.symm)
      · rw [if_pos (by simpa using hid),if_neg (by simpa using hid')] at horg' hname
        exact absurd hname.symm (hfree g' (h.others g' hg' hid') (horg'.symm.trans (horg g hg hid)) hid')
    · by_cases hid' : g'.id = group.id
      · rw [if_neg (by simpa using hid),if_pos (by simpa using hid')] at horg' hname
        exact absurd hname (hfree g (h.others g hg hid) (horg'.trans (horg g' hg' hid')) hid)
      · rw [if_neg (by simpa using hid),if_neg (by simpa using hid')] at horg' hname
        exact List.inj_on_of_nodup_map hgroups hg hg' (by simp [horg',hname])
  have hconsistent : DirectoryTables.Consistent { db.val with scimGroups := groups } := by
    refine ⟨hunique,hnames,hdistinct,husers,fun m hm => ⟨?_,(hmembers m hm).2⟩,hlinks⟩
    dsimp only [groups]
    rw [Table.lookup_updateWhere,Option.isSome_map]
    exact (hmembers m hm).1
  refine ⟨⟨_,hconsistent⟩,apply_of_consistent rfl hconsistent,h.accounts,h.scimUsers,fun g hg => ?_,fun g hg hid => ?_,h.members⟩
  · obtain ⟨g',hg',horg'⟩ := h.group g hg
    have hid : g'.id = group.id := Table.key_of_lookup hg'
    refine ⟨rename g',?_,horg'⟩
    dsimp only [groups]
    rw [Table.lookup_updateWhere,hg',Option.map_some,if_pos (by simpa using hid)]
  · obtain ⟨g',hg',rfl⟩ := List.mem_map.mp hg
    split at hid
    · rename_i hsame
      exact absurd (eq_of_beq hsame) hid
    · rename_i hother
      rw [if_neg hother]
      exact h.others g' hg' hid

theorem patchGroupOp_returns (hgroup : start.val.scimGroups.lookup group.id = some group) {op : PatchOp}
    (hfree : ∀ name ∈ valueDisplayName cm op, ∀ g ∈ start.val.scimGroups.rows, g.orgId = group.orgId → g.id ≠ group.id →
      start.val.accounts.lower g.displayName ≠ start.val.accounts.lower name) (h : Patching group.id start members db) :
    ∃ userIds db', (ScimService.patchGroupOp cm ctx group.id op).Returns db userIds db' ∧
      Patching group.id start (settle members (verdictOf (KnownUser ctx start) (readAs cm op))) db' ∧ HaveAccounts start userIds := by
  have hexists : (start.val.scimGroups.lookup group.id).isSome = true := by rw [hgroup]; rfl
  have hnothing : ∃ userIds db', (Pure.pure [] : Request (List Nat)).Returns db userIds db' ∧
    Patching group.id start members db' ∧ HaveAccounts start userIds :=
    ⟨[],db,⟨rfl,rfl⟩,h,by simp [HaveAccounts]⟩
  rw [ScimService.patchGroupOp,readAs]
  dsimp only
  by_cases hmembers : (js "members").isPrefixOf (cm.toLowerCase (op.path.getD [])) = true
  · rw [if_pos hmembers,if_pos hmembers]
    by_cases hadd : cm.toLowerCase op.op = js "add"
    · rw [if_pos hadd,if_pos hadd,settle_verdict]
      exact addMembers_returns hexists h
    · rw [if_neg hadd,if_neg hadd]
      by_cases hremove : cm.toLowerCase op.op = js "remove"
      · rw [if_pos hremove,if_pos hremove,settle_verdict]
        exact removeMembers_returns h
      · rw [if_neg hremove,if_neg hremove]
        by_cases hreplace : cm.toLowerCase op.op = js "replace"
        · rw [if_pos hreplace,if_pos hreplace,settle_verdict]
          obtain ⟨userIds,db',hset,hpatching,haccounts⟩ := setMembers_returns hexists h
          exact ⟨_,db',returns_bind.mpr ⟨_,db,returns_of_read rfl,returns_bind.mpr ⟨userIds,db',hset,rfl,rfl⟩⟩,hpatching,
            (memberUserIds_haveAccounts h group.id).append haccounts⟩
        · rw [if_neg hreplace,if_neg hreplace,settle_verdict_none]
          exact hnothing
  · rw [if_neg hmembers,if_neg hmembers,settle_verdict_none]
    by_cases hname : cm.toLowerCase (op.path.getD []) = js "displayname" ∨ (given op.path).isNone = true
    · rw [if_pos hname]
      cases hvalue : valueDisplayName cm op with
      | none => exact hnothing
      | some name =>
        obtain ⟨db',hrow,hpatching⟩ := updateScimGroup_lands hgroup (hfree name hvalue) h
        exact ⟨_,db',returns_bind.mpr ⟨(),db',returns_of_write rfl hrow,returns_of_read rfl⟩,
          hpatching,memberUserIds_haveAccounts hpatching group.id⟩
    · rw [if_neg hname]
      exact hnothing

theorem patchGroupOps_returns (hgroup : start.val.scimGroups.lookup group.id = some group) {operations : List PatchOp}
    (hfree : RenamesFree cm group start operations) (h : Patching group.id start members db) :
    ∃ userIds db', (ScimService.patchGroupOps cm ctx group.id operations).Returns db userIds db' ∧
      Patching group.id start (settleAll members (operations.map fun op => verdictOf (KnownUser ctx start) (readAs cm op))) db' ∧
      HaveAccounts start userIds := by
  induction operations generalizing members db with
  | nil => exact ⟨[],db,⟨rfl,rfl⟩,h,by simp [HaveAccounts]⟩
  | cons op rest ih =>
    obtain ⟨touched,db₁,hop,hpatching₁,haccounts₁⟩ := patchGroupOp_returns hgroup (hfree op List.mem_cons_self) h
    obtain ⟨others,db',hrest,hpatching,haccounts⟩ := ih (fun op' hop' => hfree op' (List.mem_cons_of_mem op hop')) hpatching₁
    exact ⟨touched ++ others,db',returns_bind.mpr ⟨touched,db₁,hop,returns_bind.mpr ⟨others,db',hrest,rfl,rfl⟩⟩,
      hpatching,haccounts₁.append haccounts⟩

/-- Roles are written for accounts that exist; the groups stay as they are. -/
theorem recomputeUsers_lands {userIds : List Nat} (haccounts : HaveAccounts db userIds) :
    ∃ db', (ScimService.recomputeUsers cm ctx userIds).Returns db () db' ∧ db'.val.groupMembers = db.val.groupMembers ∧
      db'.val.scimGroups = db.val.scimGroups := by
  induction userIds generalizing db with
  | nil => exact ⟨db,⟨rfl,rfl⟩,rfl,rfl⟩
  | cons userId rest ih =>
    let role := resolveRole cm (groupNamesOf db.val ctx.orgId userId) ctx.groupRoleMap ctx.defaultRole
    obtain ⟨accounts,hupsert⟩ := db.val.accounts.upsertMember_isSome ⟨ctx.orgId,userId,role⟩ (haccounts userId List.mem_cons_self)
    have husers := AccountDb.upsertMember_users hupsert
    have hcollation := @AccountWrite.collation_apply _ _ (.upsertMember ⟨ctx.orgId,userId,role⟩) hupsert
    have hconsistent : DirectoryTables.Consistent { db.val with accounts := accounts } := by
      obtain ⟨hunique,hnames,hgroups,hlinked,hmembers,hlinks⟩ := db.property
      refine ⟨hunique,?_,?_,?_,hmembers,?_⟩
      · dsimp only [AccountDb.lower]
        rw [hcollation]
        exact hnames
      · dsimp only [AccountDb.lower]
        rw [hcollation]
        exact hgroups
      · dsimp only
        rw [husers]
        exact hlinked
      · dsimp only
        rw [husers]
        exact hlinks
    have hrow : (RowWrite.account (.upsertMember ⟨ctx.orgId,userId,role⟩)).apply db = some ⟨_,hconsistent⟩ := by
      refine apply_of_consistent ?_ hconsistent
      change (db.val.accounts.upsertMember ⟨ctx.orgId,userId,role⟩).map _ = _
      rw [hupsert]
      rfl
    have hlater : HaveAccounts ⟨_,hconsistent⟩ rest := by
      intro userId' hmem
      change (accounts.users.lookup userId').isSome = true
      rw [husers]
      exact haccounts userId' (List.mem_cons_of_mem userId hmem)
    obtain ⟨db',hreturns,hmembers,hgroups⟩ := ih hlater
    exact ⟨db',returns_bind.mpr ⟨_,db,returns_of_read rfl,returns_bind.mpr ⟨(),_,returns_of_write rfl hrow,hreturns⟩⟩,hmembers,hgroups⟩

end Effects

section Patch
variable {cm : CaseMapping} {ctx : ScimContext} {db : DirectoryDb} {id : JsString} {group : ScimGroupRow} {operations : List PatchOp}

/-- The operation is on the members, in a form that the standard has, or its path is another. -/
def OnMembers (cm : CaseMapping) (op : PatchOp) : Prop :=
  (membersOp cm op).isSome = true ∨ (js "members").isPrefixOf (cm.toLowerCase (op.path.getD [])) = false

/-- An operation of a form that is passed over is the last one that concerns a user only where
the user is, or is not, a member by then as it says. -/
def LastWordRead (cm : CaseMapping) (ctx : ScimContext) (db : DirectoryDb) (groupId : Nat) (operations : List PatchOp) : Prop :=
  ∀ u before op after b, operations = before ++ op :: after → Overlooked cm op →
    verdictOf (KnownUser ctx db) (membersOp cm op) u = some b →
    (∀ later ∈ after, verdictOf (KnownUser ctx db) (membersOp cm later) u = none) →
    SettledAt (memberIds db.val groupId) ((before ++ [op]).map fun op => verdictOf (KnownUser ctx db) (readAs cm op)) u b

theorem loadGroup_returns (h : scimGroupRow db ctx id = some group) : (ScimService.loadGroup ctx id).Returns db group db := by
  obtain ⟨n,hid,hgroup⟩ := Option.bind_eq_some_iff.mp h
  rw [ScimService.loadGroup,hid]
  refine returns_bind.mpr ⟨some group,db,?_,rfl,rfl⟩
  have hread : (query (.scimGroup ctx.orgId n)).Returns db ((db.val.scimGroups.lookup n).filter (·.orgId == ctx.orgId)) db :=
    returns_of_read rfl
  rwa [hgroup] at hread

/-- The request succeeds, and the members are what the operations ask for if and only if the
last word on every user is read. -/
theorem group_patch_as_meant (hcm : LowersPrefixes cm) (hgroup : scimGroupRow db ctx id = some group)
    (hops : ∀ op ∈ operations, OnMembers cm op) (hfree : RenamesFree cm group db operations) :
    ∃ row db', (ScimService.patchGroup cm ctx id operations).Returns db row db' ∧
      (ScimService.patchGroup cm ctx id operations).after .database db = db' ∧
      (memberIds db'.val group.id = meantMembers cm (KnownUser ctx db) operations (memberIds db.val group.id) ↔
        LastWordRead cm ctx db group.id operations) := by
  obtain ⟨n,hid,hrow⟩ := Option.bind_eq_some_iff.mp hgroup
  obtain ⟨hlookup,horg⟩ := Option.filter_eq_some_iff.mp hrow
  obtain rfl : group.id = n := Table.key_of_lookup hlookup
  obtain ⟨touched,db₁,hpatch,hpatching,haccounts⟩ := patchGroupOps_returns hlookup hfree (Patching.refl group.id db)
  have haccounts₁ : HaveAccounts db₁ touched.eraseDups := by
    intro userId hmem
    rw [hpatching.accounts]
    exact haccounts userId (List.mem_eraseDups.mp hmem)
  obtain ⟨db',hrecompute,hmembers,hgroups⟩ := recomputeUsers_lands haccounts₁
  obtain ⟨group',hgroup',horg'⟩ := hpatching.group group hlookup
  have hreload : scimGroupRow db' ctx id = some group' := by
    rw [scimGroupRow,hid,Option.bind_some,hgroups,hgroup',Option.filter_some,if_pos]
    rw [horg']
    exact horg
  have hbody : (ScimService.patchGroupOps cm ctx group.id operations >>= fun touched =>
    ScimService.recomputeRoles cm ctx touched).Returns db () db' :=
    returns_bind.mpr ⟨touched,db₁,hpatch,hrecompute⟩
  have honly : (ScimService.patchGroupOps cm ctx group.id operations >>= fun touched => ScimService.recomputeRoles cm ctx touched).Only
      (groupStatement cm ctx) := .bind (ScimService.only_patchGroupOps _ operations) fun touched => ScimService.only_recomputeRoles touched
  refine ⟨group',db',returns_bind.mpr ⟨group,db,loadGroup_returns hgroup,
    returns_bind.mpr ⟨(),db',returns_tx.mpr hbody,loadGroup_returns hreload⟩⟩,?_,?_⟩
  · rw [ScimService.patchGroup,after_loadGroup,hgroup,Option.elim_some,transaction,after_tx_of_returns honly hbody]
    rw [← after_bind_pure ApiError.database (ScimService.loadGroup ctx id) (),after_loadGroup,hreload]
    rfl
  · have hset : memberIds db'.val group.id = memberIds db₁.val group.id := by rw [memberIds,hmembers,memberIds]
    rw [hset,hpatching.members,meantMembers_eq,Set.ext_iff]
    refine forall_congr' fun u => ?_
    refine settled_alike_iff (fun op hop hmeant => read_silent hcm (hops op hop) hmeant) fun op hop hread => ?_
    cases hm : membersOp cm op with
    | none => exact read_silent hcm (hops op hop) (by rw [hm]; rfl)
    | some m => exact read_as_meant hcm hm hread u

instance (cm : CaseMapping) (op : PatchOp) : Decidable (OnMembers cm op) := inferInstanceAs (Decidable (_ = true ∨ _ = false))

instance (cm : CaseMapping) (op : PatchOp) : Decidable (Overlooked cm op) :=
  inferInstanceAs (Decidable (_ = true ∨ _ ∧ (_ ∧ _ = true ∨ _ = true)))

instance (cm : CaseMapping) (group : ScimGroupRow) (db : DirectoryDb) (operations : List PatchOp) :
    Decidable (RenamesFree cm group db operations) :=
  inferInstanceAs (Decidable (∀ op ∈ operations, ∀ name ∈ valueDisplayName cm op, ∀ g ∈ db.val.scimGroups.rows, _ → _ → _))

def adminsDb : DirectoryDb where
  val := { twoTenantsDb.val with
    scimUsers := ⟨[⟨5,3,1,none,js "a",true⟩,⟨6,3,2,none,js "b",true⟩],by decide⟩
    scimGroups := ⟨[⟨7,3,none,js "admins"⟩],by decide⟩
    groupMembers := ⟨[⟨7,5⟩],by decide⟩ }
  property := by decide

def adminsId : JsString := js "00000000-0000-0000-0000-000000000007"

def removeMembersOp : PatchOp := ⟨js "Remove",some (js "members"),none⟩

/-- The second user by its id, in an object. -/
def replaceMembersOp : PatchOp :=
  ⟨js "Replace",some (js "members"),some (.object [(js "value",.string (js "00000000-0000-0000-0000-000000000006"))])⟩

theorem replaced_after_all :
    ∃ row db', (ScimService.patchGroup asciiCase adminsContext adminsId [removeMembersOp,replaceMembersOp]).Returns adminsDb row db' ∧
    memberIds db'.val 7 = meantMembers asciiCase (KnownUser adminsContext adminsDb)
    [removeMembersOp,replaceMembersOp] (memberIds adminsDb.val 7) := by
  have hgroup : scimGroupRow adminsDb adminsContext adminsId = some ⟨7,3,none,js "admins"⟩ := by decide
  have hops : ∀ op ∈ [removeMembersOp,replaceMembersOp], OnMembers asciiCase op := by decide
  have hfree : RenamesFree asciiCase ⟨7,3,none,js "admins"⟩ adminsDb [removeMembersOp,replaceMembersOp] := by decide
  obtain ⟨row,db',hreturns,-,hmeant⟩ := group_patch_as_meant lowersPrefixes_asciiCase hgroup hops hfree
  refine ⟨row,db',hreturns,hmeant.mpr ?_⟩
  rintro u before op after b hsplit hover - hafter
  match before, hsplit with
  | [], hsplit =>
    -- `replace` has a verdict on everybody
    cases hsplit
    exact absurd (hafter replaceMembersOp List.mem_cons_self) (Option.some_ne_none _)
  | [_], hsplit =>
    obtain ⟨-,hsplit⟩ := List.cons.inj hsplit
    cases hsplit
    exact absurd hover (by decide)
  | _ :: _ :: _, hsplit => simp at hsplit

/-- `remove` without a value leaves the member in the group. -/
theorem remove_all_ignored :
    (∀ op ∈ [removeMembersOp], OnMembers asciiCase op) ∧ RenamesFree asciiCase ⟨7,3,none,js "admins"⟩ adminsDb [removeMembersOp] ∧
    memberIds ((ScimService.patchGroup asciiCase adminsContext adminsId [removeMembersOp]).after .database adminsDb).val 7 ≠
      meantMembers asciiCase (KnownUser adminsContext adminsDb) [removeMembersOp] (memberIds adminsDb.val 7) := by
  refine ⟨by decide,by decide,fun hsame => ?_⟩
  have hstays : (⟨7,5⟩ : GroupMemberRow) ∈
      ((ScimService.patchGroup asciiCase adminsContext adminsId [removeMembersOp]).after .database adminsDb).val.groupMembers.rows := by
        decide
  have hnone : meantMembers asciiCase (KnownUser adminsContext adminsDb) [removeMembersOp] (memberIds adminsDb.val 7) = ∅ := rfl
  rw [hnone] at hsame
  exact Set.notMem_empty 5 (hsame ▸ hstays)

end Patch
end JustMail.Accounts
