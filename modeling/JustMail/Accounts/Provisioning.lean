import JustMail.Accounts.DirectoryStore
import JustMail.Contacts.VCard

/-! Accounts and roles that come from outside: the users and groups that a SCIM client
writes, and the entries of an LDAP directory. -/
namespace JustMail.Accounts
open Foundation Postfix
open Contacts (isUuid)
open Dav.ContentLine (SP)

section Mapping
variable (cm : CaseMapping)

def normalizeDn (dn : JsString) : JsString := cm.toLowerCase (trim dn)

/-- `normalizedMap.get`, where a later entry replaces an earlier one. -/
def mappedRole (roleMap : List (JsString × OrgRole)) (group : JsString) : Option OrgRole :=
  (roleMap.reverse.find? fun entry => normalizeDn cm entry.1 == normalizeDn cm group).map (·.2)

/-- The higher-ranked of two roles, the first where they are equal. -/
def betterRole : Option OrgRole → OrgRole → OrgRole
  | none, role => role
  | some best, role => if best.rank < role.rank then role else best

def resolveRole (groups : List JsString) (roleMap : List (JsString × OrgRole)) (defaultRole : OrgRole) : OrgRole :=
  (groups.foldl (fun best g => ((mappedRole cm roleMap g).map (betterRole best)).or best) none).getD defaultRole

inductive Json where
  | null
  | bool (b : Bool)
  | number (text : JsString)
  | string (s : JsString)
  | array (items : List Json)
  | object (fields : List (JsString × Json))

mutual

/-- `String(value)`. -/
def Json.text : Json → JsString
  | .null => js "null"
  | .bool b => js (if b then "true" else "false")
  | .number text => text
  | .string s => s
  | .array items => Json.joined items
  | .object _ => js "[object Object]"

/-- `items.join(",")`. -/
def Json.joined : List Json → JsString
  | [] => []
  | [.null] => []
  | [v] => v.text
  | .null :: vs => COMMA :: Json.joined vs
  | v :: vs => v.text ++ COMMA :: Json.joined vs

end

def Json.truthy : Json → Bool
  | .null => false
  | .bool b => b
  | .number text => text != js "0"
  | .string s => !s.isEmpty
  | _ => true

def Json.field (name : JsString) : Json → Option Json
  | .object fields => fields.lookup name
  | _ => none

def Json.string? : Json → Option JsString
  | .string s => some s
  | _ => none

/-- `String(v.value ?? "")` of an object, `String(v)` of anything else. -/
def memberText : Json → JsString
  | v@(.object _) =>
    match v.field (js "value") with
    | none | some .null => []
    | some value => value.text
  | .array _ => []
  | v => v.text

def memberValues : Option Json → List JsString
  | some (.array items) => (items.map memberText).filter (!·.isEmpty)
  | some (.object fields) => (((Json.object fields).field (js "value")).filter Json.truthy).toList.map Json.text
  | _ => []

/-- The rest of `s` after the text, letters in either case. -/
def stripText (text s : JsString) : Option JsString :=
  if (s.take text.length).map asciiLower = text then some (s.drop text.length) else none

/-- `\s+`. -/
def stripSpaces : JsString → Option JsString
  | c :: s => if isSpace c then some (s.dropWhile isSpace) else none
  | [] => none

/-- `members\[\s*value\s+eq\s+"([^"]+)"\s*\]` at the start of `s`. -/
def memberFilter (s : JsString) : Option JsString := do
  let s ← stripText (js "members[") s
  let s ← stripText (js "value") (s.dropWhile isSpace)
  let s ← stripSpaces s
  let s ← stripText (js "eq") s
  let s ← stripSpaces s
  let s ← stripText (js "\"") s
  let value := s.takeWhile (· != unit '"')
  let s ← stripText (js "\"") (s.drop value.length)
  let _ ← stripText (js "]") (s.dropWhile isSpace)
  if value.isEmpty then none else some value

def memberFromPath (path : Option JsString) : Option (List JsString) :=
  path.bind fun s => (s.tails.findSome? memberFilter).map fun value => [value]

def hexValue (c : CodeUnit) : Nat := if c ≤ 57 then c.toNat - 48 else (asciiLower c).toNat - 87

/-- The id that a text names, where `isUuid` accepts it. -/
def uuidOf (s : JsString) : Option Nat :=
  if isUuid s then some ((s.filter (· != unit '-')).foldl (fun n c => 16 * n + hexValue c) 0) else none

structure ScimName where
  formatted : Option JsString
  givenName : Option JsString
  familyName : Option JsString

structure ScimEmail where
  value : JsString
  isPrimary : Bool

structure ScimUser where
  userName : Option JsString
  externalId : Option JsString
  displayName : Option JsString
  name : Option ScimName
  emails : List ScimEmail
  active : Option Bool

structure ScimGroup where
  displayName : Option JsString
  externalId : Option JsString
  members : List JsString

structure PatchOp where
  op : JsString
  path : Option JsString
  value : Option Json

variable (cm : CaseMapping)

def primaryEmail (body : ScimUser) : Option JsString :=
  (((body.emails.find? (·.isPrimary)).or body.emails.head?).filter (!·.value.isEmpty)).map (cm.toLowerCase ·.value)

/-- A text that is there and not empty. -/
def given (s : Option JsString) : Option JsString := s.filter (!·.isEmpty)

def displayNameOf (body : ScimUser) : JsString :=
  let parts (n : ScimName) := (given n.givenName).toList ++ (given n.familyName).toList
  (given body.displayName).getD <| body.name.elim [] fun n =>
    (given n.formatted).getD ([SP].intercalate (parts n))

def toBool : Option Json → Bool
  | some (.bool b) => b
  | some (.string s) => cm.toLowerCase s == js "true"
  | _ => false

def valueDisplayName (op : PatchOp) : Option JsString :=
  match given op.path with
  | some path => if cm.toLowerCase path = js "displayname" then op.value.bind Json.string? else none
  | none => (op.value.bind (Json.field (js "displayName"))).bind Json.string?

end Mapping

/-- What a SCIM request is authenticated for: the organisation and its `scim_configs` row. -/
structure ScimContext where
  orgId : Nat
  defaultRole : OrgRole
  groupRoleMap : List (JsString × OrgRole)
  deactivate : Bool

namespace ScimService
variable (cm : CaseMapping) (ctx : ScimContext)

def loadUser (id : JsString) : Request ScimUserRow := do
  match uuidOf id with
  | none => fail .userNotFound
  | some id =>
    match ← query (.scimUser ctx.orgId id) with
    | none => fail .userNotFound
    | some row => pure row

/-- Reactivating lifts a suspension and nothing else. -/
def applyActive (userId : Nat) (active : Bool) : Request Unit :=
  if active then query (.reactivateUser userId) else query (.suspendUser userId)

def resolveLocalUser (email displayName : JsString) (newId : Nat) : Request Nat := do
  match ← query (.userByEmail email) with
  | some found => pure found.id
  | none =>
    query (.insertUser ⟨newId,email,displayName,none,none,false,.active⟩)
    pure newId

/-- The ids are those that the inserted rows get. -/
def createUser (body : ScimUser) (newUserId newId : Nat) : Request ScimUserRow := do
  let userName := trim (body.userName.getD [])
  let email := (primaryEmail cm body).getD userName
  if userName.isEmpty || !email.contains AT then fail .userNameNotEmail
  match ← query (.scimUserNamed ctx.orgId (cm.toLowerCase userName)) with
  | some _ => fail .userExists
  | none =>
    let active := body.active.getD true
    transaction do
      let userId ← resolveLocalUser email (displayNameOf body) newUserId
      query (.insertMember ⟨ctx.orgId,userId,ctx.defaultRole⟩)
      let row := ⟨newId,ctx.orgId,userId,body.externalId,userName,active⟩
      query (.insertScimUser row)
      if !active then query (.suspendUser userId)
      pure row

def replaceUser (id : JsString) (body : ScimUser) : Request Unit := do
  let row ← loadUser ctx id
  let active := body.active.getD true
  let userName := trim (body.userName.getD row.userName)
  let displayName := displayNameOf body
  transaction do
    query (.updateScimUser row.id (body.externalId.or row.externalId) userName active)
    applyActive row.userId active
    if !displayName.isEmpty then query (.renameUser row.userId displayName)

/-- One operation of `patchUser` on `active`, `userName` and `externalId`. -/
def patchUserField (row : ScimUserRow) (op : PatchOp) : ScimUserRow :=
  let path := cm.toLowerCase (op.path.getD [])
  let text := op.value.bind Json.string?
  if cm.toLowerCase op.op = js "remove" then row
  else if path = js "active" then { row with active := toBool cm op.value }
  else if path = js "username" ∧ text.isSome then { row with userName := text.getD row.userName }
  else if path = js "externalid" ∧ text.isSome then { row with externalId := text }
  else if (given op.path).isNone then
    let field (name : String) := op.value.bind (Json.field (js name))
    { row with
      active := (field "active").elim row.active fun v => toBool cm (some v)
      userName := ((field "userName").bind Json.string?).getD row.userName
      externalId := ((field "externalId").bind Json.string?).or row.externalId }
  else row

def patchUser (id : JsString) (operations : List PatchOp) : Request Unit := do
  let row ← loadUser ctx id
  let patched := operations.foldl (patchUserField cm) row
  transaction do
    query (.updateScimUser row.id patched.externalId patched.userName patched.active)
    applyActive row.userId patched.active

def deleteUser (id : JsString) : Request Unit := do
  let row ← loadUser ctx id
  transaction do
    query (.deleteScimUser row.id)
    if ctx.deactivate then query (.suspendUser row.userId)

def loadGroup (id : JsString) : Request ScimGroupRow := do
  match uuidOf id with
  | none => fail .groupNotFound
  | some id =>
    match ← query (.scimGroup ctx.orgId id) with
    | none => fail .groupNotFound
    | some row => pure row

/-- The accounts of the values that name a user of the organisation. -/
def addMembers (groupId : Nat) : List JsString → Request (List Nat)
  | [] => pure []
  | sid :: rest => do
    match uuidOf sid with
    | none => addMembers groupId rest
    | some id =>
      match ← query (.scimUser ctx.orgId id) with
      | none => addMembers groupId rest
      | some found =>
        query (.insertGroupMember ⟨groupId,id⟩)
        let userIds ← addMembers groupId rest
        pure (found.userId :: userIds)

def removeMembers (groupId : Nat) : List JsString → Request (List Nat)
  | [] => pure []
  | sid :: rest => do
    match uuidOf sid with
    | none => removeMembers groupId rest
    | some id =>
      let found ← query (.scimUser ctx.orgId id)
      query (.deleteGroupMember ⟨groupId,id⟩)
      let userIds ← removeMembers groupId rest
      pure ((Option.map ScimUserRow.userId found).toList ++ userIds)

def setMembers (groupId : Nat) (scimUserIds : List JsString) : Request (List Nat) := do
  query (.clearGroup groupId)
  addMembers ctx groupId scimUserIds

def recomputeUsers : List Nat → Request Unit
  | [] => pure ()
  | userId :: rest => do
    let names ← query (.groupNamesOf ctx.orgId userId)
    query (.upsertMember ⟨ctx.orgId,userId,resolveRole cm names ctx.groupRoleMap ctx.defaultRole⟩)
    recomputeUsers rest

def recomputeRoles (userIds : List Nat) : Request Unit := recomputeUsers cm ctx userIds.eraseDups

def createGroup (body : ScimGroup) (newId : Nat) : Request ScimGroupRow := do
  let displayName := trim (body.displayName.getD [])
  if displayName.isEmpty then fail .displayNameRequired
  match ← query (.scimGroupNamed ctx.orgId (cm.toLowerCase displayName)) with
  | some _ => fail .groupExists
  | none =>
    transaction do
      let group := ⟨newId,ctx.orgId,body.externalId,displayName⟩
      query (.insertScimGroup group)
      let memberIds ← setMembers ctx newId body.members
      recomputeRoles cm ctx memberIds
      pure group

/-- One operation of `patchGroup`, with the accounts it touches. -/
def patchGroupOp (groupId : Nat) (op : PatchOp) : Request (List Nat) := do
  let opName := cm.toLowerCase op.op
  let path := cm.toLowerCase (op.path.getD [])
  if (js "members").isPrefixOf path then
    let values := memberValues op.value
    if opName = js "add" then addMembers ctx groupId values
    else if opName = js "remove" then removeMembers ctx groupId ((memberFromPath op.path).getD values)
    else if opName = js "replace" then
      let before : List Nat ← query (.memberUserIds groupId)
      let ids ← setMembers ctx groupId values
      pure (before ++ ids)
    else pure []
  else if path = js "displayname" ∨ (given op.path).isNone then
    match valueDisplayName cm op with
    | none => pure []
    | some displayName =>
      query (.updateScimGroup groupId displayName none)
      query (.memberUserIds groupId)
  else pure []

def patchGroupOps (groupId : Nat) : List PatchOp → Request (List Nat)
  | [] => pure []
  | op :: rest => do
    let touched ← patchGroupOp cm ctx groupId op
    let others ← patchGroupOps groupId rest
    pure (touched ++ others)

def patchGroup (id : JsString) (operations : List PatchOp) : Request ScimGroupRow := do
  let group ← loadGroup ctx id
  transaction do
    let touched ← patchGroupOps cm ctx group.id operations
    recomputeRoles cm ctx touched
  loadGroup ctx id

def replaceGroup (id : JsString) (body : ScimGroup) : Request ScimGroupRow := do
  let group ← loadGroup ctx id
  transaction do
    if let some displayName := given body.displayName then
      query (.updateScimGroup group.id (trim displayName) (some (body.externalId.or group.externalId)))
    let before : List Nat ← query (.memberUserIds group.id)
    let after ← setMembers ctx group.id body.members
    recomputeRoles cm ctx (before ++ after)
  loadGroup ctx id

def deleteGroup (id : JsString) : Request Unit := do
  let group ← loadGroup ctx id
  transaction do
    let members ← query (.memberUserIds group.id)
    query (.deleteScimGroup group.id)
    recomputeRoles cm ctx members

end ScimService

structure DirectoryRow where
  id : Nat
  orgId : Nat
  groupRoleMap : List (JsString × OrgRole)
  defaultRole : OrgRole
  deactivateMissing : Bool

structure MappedUser where
  externalId : JsString
  email : Option JsString
  name : Option JsString
  groups : List JsString

structure SyncCounts where
  created : Nat
  updated : Nat
  deactivated : Nat
  deriving DecidableEq

namespace LdapService
variable (cm : CaseMapping) (row : DirectoryRow) (expand : List JsString → List JsString)

/-- The transaction for one entry; `newId` is the id of the account it may create. -/
def applyUser (user : MappedUser) (email : JsString) (newId : Nat) : Request Bool := transaction do
  let role := resolveRole cm (expand user.groups) row.groupRoleMap row.defaultRole
  let (userId,isNew) ← (do
    match ← query (.ldapLink row.id user.externalId) with
    | some userId => pure (userId,false)
    | none =>
      match ← query (.userByEmail email) with
      | some existing => pure (existing.id,false)
      | none =>
        query (.insertUser ⟨newId,email,user.name.getD [],none,none,false,.active⟩)
        pure (newId,true))
  query (.activateUser userId (user.name.getD []))
  query (.upsertMember ⟨row.orgId,userId,role⟩)
  query (.upsertLdapIdentity ⟨row.id,user.externalId,userId⟩)
  pure isNew

/-- The entries that have an e-mail, one after the other. -/
def applyUsers (newId : JsString → Nat) (counts : SyncCounts) : List MappedUser → Request SyncCounts
  | [] => pure counts
  | user :: rest =>
    match given user.email with
    | none => applyUsers newId counts rest
    | some email => do
      let created ← applyUser cm row expand user email (newId user.externalId)
      applyUsers newId
        (if created then { counts with created := counts.created + 1 } else { counts with updated := counts.updated + 1 }) rest

def deactivate (seen : List JsString) (counts : SyncCounts) : List LdapIdentityRow → Request SyncCounts
  | [] => pure counts
  | identity :: rest =>
    if seen.contains identity.externalId then deactivate seen counts rest
    else do
      let changed ← query (.suspendActive identity.userId)
      deactivate seen { counts with deactivated := counts.deactivated + Bool.toNat changed } rest

def applySnapshot (users : List MappedUser) (newId : JsString → Nat) : Request SyncCounts := do
  let seen := (users.filter fun u => (given u.email).isSome).map (·.externalId)
  let counts ← applyUsers cm row expand newId ⟨0,0,0⟩ users
  if row.deactivateMissing then
    let stale ← query (.ldapLinks row.id)
    deactivate seen counts stale
  else pure counts

end LdapService
end JustMail.Accounts
