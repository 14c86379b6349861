import JustMail.Foundation.FileSystem
import JustMail.Foundation.PosixPath
import JustMail.Foundation.Utf8Decoder
import JustMail.Storage.RangedReads
import JustMail.Webmail.CredentialStore

/-! The storage adapter for a directory of files, and the keys of the tenants in it. -/
namespace JustMail.Storage.Local
open Foundation PosixPath FileSystem

/-- The adapter of a process with its working directory. -/
structure LocalAdapter where
  cwd : JsString
  cwd_absolute : isAbsolute cwd = true
  root : JsString
  /-- The digest in hexadecimal. -/
  sha256 : Bytes → JsString
  /-- What `stat` says of a directory's size. -/
  directorySize : Nat

def LocalAdapter.path (a : LocalAdapter) (key : JsString) : JsString :=
  let normalised := ((key.dropWhile (· = slash)).splitOn slash).filter fun p => p ≠ [] ∧ p ≠ dotdot
  resolve a.cwd (a.root :: normalised)

/-- `StorageService.key`. -/
def storageKey (orgId : JsString) (parts : List JsString) : JsString :=
  let clean := (parts.flatMap (·.splitOn slash)).filter fun p => p ≠ [] ∧ p ≠ dotdot
  [slash].intercalate ([js "org",orgId] ++ clean)

section Calls
variable {α : Type}

/-- `invalidArg` is the error of `node:fs` for a path with a NUL, `aborted` that of a body that breaks off. -/
inductive LocalError
  | errno (e : Errno)
  | invalidArg
  | aborted
  | objectNotFound (key : JsString)
  | range
  deriving DecidableEq

/-- The names in an absolute path, as the file system has them. -/
def osPath (p : JsString) : Except LocalError FilePath :=
  if 0 ∈ p then .error .invalidArg else .ok ((keptSegments false p).map utf8Bytes)

def withPath (p : JsString) (f : FilePath → Fs LocalError α) : Fs LocalError α :=
  match osPath p with
  | .error e => throw e
  | .ok q => f q

def lift (r : Except Errno α) : Except LocalError α := r.mapError .errno

def fsMkdir (p : JsString) : Fs LocalError Unit := withPath p fun q => Fs.change fun d => lift (d.mkdir q)
def fsWrite (p : JsString) (content : Bytes) : Fs LocalError Unit := withPath p fun q => Fs.change fun d => lift (d.writeFile q content)
def fsUnlink (p : JsString) : Fs LocalError Unit := withPath p fun q => Fs.change fun d => lift (d.unlink q)
def fsRename (p p' : JsString) : Fs LocalError Unit :=
  withPath p fun q => withPath p' fun q' => Fs.change fun d => lift (d.rename q q')
def fsCopyFile (p p' : JsString) : Fs LocalError Unit :=
  withPath p fun q => withPath p' fun q' => Fs.change fun d => lift (d.copyFile q q')
def fsStat (p : JsString) : Fs LocalError (Option Bytes) := withPath p fun q => Fs.ask fun d => lift (d.stat q)

end Calls

section Adapter
variable (a : LocalAdapter)

/-- `Math.random().toString(36).slice(2)`. -/
structure RandomSuffix where
  text : JsString
  units : ∀ c ∈ text, (48 ≤ c ∧ c ≤ 57) ∨ (97 ≤ c ∧ c ≤ 122)

def tmpName (now : Nat) (random : RandomSuffix) : JsString := js ".jm-tmp-" ++ decimal now ++ js "-" ++ random.text

structure Etag where
  etag : JsString
  key : JsString
  size : Nat
  deriving DecidableEq

/-- A body is what its stream delivers, and whether the stream comes to its end. -/
structure Body where
  bytes : Bytes
  complete : Bool

/-- `pipeline(body, createWriteStream(tmp))`. -/
def pipeline (body : Body) (tmp : JsString) : Fs LocalError Unit := do
  fsWrite tmp body.bytes
  if body.complete then pure () else throw .aborted

namespace LocalAdapter

def putObject (key : JsString) (body : Body) (now : Nat) (random : RandomSuffix) : Fs LocalError Etag := do
  let target := a.path key
  let dir := dirname target
  fsMkdir dir
  let tmp := join [dir,tmpName now random]
  tryCatch (do
    pipeline body tmp
    fsRename tmp target) fun err => do
      tryCatch (fsUnlink tmp) fun _ => pure ()
      throw err
  pure ⟨a.sha256 body.bytes,key,body.bytes.length⟩

def getStream (key : JsString) (range : Option Range) : Fs LocalError Bytes := do
  let target := a.path key
  let content ← tryCatch (fsStat target) fun _ => throw (.objectNotFound key)
  match content with
  | none => throw (.errno .EISDIR)
  | some content =>
    match createReadStream content (range.map (·.start)) (range.bind (·.last)) with
    | .error _ => throw .range
    | .ok bytes => pure bytes

/-- The size; the times of the file are left out. -/
def headObject (key : JsString) : Fs LocalError Nat := do
  let content ← tryCatch (fsStat (a.path key)) fun _ => throw (.objectNotFound key)
  pure ((content.map (·.length)).getD a.directorySize)

def deleteObject (key : JsString) : Fs LocalError Unit :=
  tryCatch (fsUnlink (a.path key)) fun err => if err = .errno .ENOENT then pure () else throw err

def copyObject (source to' : JsString) : Fs LocalError Unit := do
  let src := a.path source
  let dst := a.path to'
  fsMkdir (dirname dst)
  fsCopyFile src dst

end LocalAdapter

/-- `readdir(dir, { withFileTypes: true })`. -/
def readdir (order : ReaddirOrder) (d : Disk) (dir : JsString) : Except LocalError (List (JsString × Bool)) :=
  (osPath dir).bind fun p => (lift (d.readdir order p)).map fun entries => entries.map fun e => (decodeLossy e.1,e.2)

/-- A directory that cannot be read has no entries. The fuel is the depth of the tree. -/
def walk (order : ReaddirOrder) (d : Disk) : Nat → JsString → List JsString
  | 0,_ => []
  | fuel+1,dir =>
    match readdir order d dir with
    | .error _ => []
    | .ok entries => entries.flatMap fun e => if e.2 then walk order d fuel (join [dir,e.1]) else [join [dir,e.1]]

def depth (d : Disk) : Nat := (d.rows.map fun i => i.path.length).foldl max 0

/-- The entry for a file of the walk. -/
def LocalAdapter.entry (d : Disk) (p : JsString) : Except LocalError ListEntry :=
  (osPath p).bind fun q => (lift (d.stat q)).map fun content =>
    ⟨[slash].intercalate ((p.drop (a.root.length + 1)).splitOn slash),(content.map (·.length)).getD a.directorySize⟩

def LocalAdapter.listPrefix (order : ReaddirOrder) (start : JsString) (d : Disk) : Except LocalError (List ListEntry) :=
  (walk order d (depth d) (a.path start)).mapM (a.entry d)

end Adapter

section Service
open Webmail

/-- The calls of `StorageService` for a tenant. -/
inductive TenantCall
  | put (path : JsString) (body : Body) (now : Nat) (random : RandomSuffix)
  | stream (path : JsString) (range : Option Range)
  | head (path : JsString)
  | remove (path : JsString)
  | copy (source to' : JsString)

inductive TenantReply
  | etag (e : Etag)
  | bytes (b : Bytes)
  | size (n : Nat)
  | done

def TenantCall.run (a : LocalAdapter) (orgId : UuidText) : TenantCall → Fs LocalError TenantReply
  | .put path body now random => do
    let e ← a.putObject (storageKey orgId.text [path]) body now random
    pure (.etag e)
  | .stream path range => do
    let b ← a.getStream (storageKey orgId.text [path]) range
    pure (.bytes b)
  | .head path => do
    let n ← a.headObject (storageKey orgId.text [path])
    pure (.size n)
  | .remove path => do
    a.deleteObject (storageKey orgId.text [path])
    pure .done
  | .copy source to' => do
    a.copyObject (storageKey orgId.text [source]) (storageKey orgId.text [to'])
    pure .done

end Service
end JustMail.Storage.Local
