import JustMail.Foundation.DayNumbers
import JustMail.Foundation.Mboxrd

/-! The export of a mailbox: the archive that `buildMbox` writes, and what a reader of mboxrd makes of it. -/
namespace JustMail.Retention
open Foundation Mboxrd

/-- What `fetch` yields. There may be no source and no date, and the date may be invalid; `fetchedAt` is the
clock as the message comes in. -/
structure FetchedMessage where
  source : Option Bytes
  internalDate : Option (Option Instant)
  fetchedAt : Instant

/-- A folder that cannot be locked is left out. -/
structure ExportFolder where
  lockable : Bool
  messages : List FetchedMessage

/-- Where `^` matches with the flag `m`. The other two terminators of JavaScript are not in latin1. -/
def isLineTerminator (b : Byte) : Bool := b == LF || b == CR

/-- `text.replace(/^(>*From )/gm, ">$1")` of the bytes as latin1. -/
def escapeMbox (source : Bytes) : Bytes := quoteLines isLineTerminator true source

/-- `Buffer.from(text, "utf8")` of ASCII text. -/
def asciiBytes (text : JsString) : Bytes := text.map UInt16.toUInt8

def fromLine (msg : FetchedMessage) : Bytes :=
  asciiBytes (js "From MAILER-DAEMON " ++ toUTCString (msg.internalDate.getD (some msg.fetchedAt)))

def pushMessage (acc : List Bytes × Nat) (msg : FetchedMessage) : List Bytes × Nat :=
  match msg.source with
  | none => acc
  | some source => (acc.1 ++ [fromLine msg ++ [LF],escapeMbox source,[LF]],acc.2+1)

def pushFolder (acc : List Bytes × Nat) (folder : ExportFolder) : List Bytes × Nat :=
  if folder.lockable then folder.messages.foldl pushMessage acc else acc

def buildMbox (folders : List ExportFolder) : Bytes × Nat :=
  let acc := folders.foldl pushFolder ([],0)
  (acc.1.flatten,acc.2)

/-- The messages of the folders that can be read, in order. -/
def sources (folders : List ExportFolder) : List Bytes :=
  ((folders.filter (·.lockable)).flatMap (·.messages)).filterMap (·.source)

/-- No carriage return stands right before "From ", or before `>`s and "From ". -/
def NoBareFrom (source : Bytes) : Prop := ∀ t, CR :: t <:+ source → isFromLine t = false

def entryOf (msg : FetchedMessage) : Option Entry := msg.source.map fun source => ⟨fromLine msg,escapeMbox source⟩

def entries (folders : List ExportFolder) : List Entry := ((folders.filter (·.lockable)).flatMap (·.messages)).filterMap entryOf

theorem pushMessage_eq (acc : List Bytes × Nat) (msgs : List FetchedMessage) :
    (msgs.foldl pushMessage acc).1.flatten = acc.1.flatten ++ ((msgs.filterMap entryOf).map Entry.bytes).flatten := by
  induction msgs generalizing acc with
  | nil => simp
  | cons msg msgs ih =>
    rw [List.foldl_cons,ih,pushMessage,List.filterMap_cons,entryOf]
    cases msg.source with
    | none => rfl
    | some source => simp [Entry.bytes]

theorem buildMbox_eq (folders : List ExportFolder) : (buildMbox folders).1 = ((entries folders).map Entry.bytes).flatten := by
  have hfolders : ∀ acc : List Bytes × Nat,
      (folders.foldl pushFolder acc).1.flatten = acc.1.flatten ++ ((entries folders).map Entry.bytes).flatten := by
    induction folders with
    | nil => simp [entries]
    | cons folder folders ih =>
      intro acc
      rw [List.foldl_cons,ih,pushFolder,entries,entries,List.filter_cons]
      split
      · rw [pushMessage_eq,List.flatMap_cons,List.filterMap_append,List.map_append,List.flatten_append,List.append_assoc]
      · rfl
  exact hfolders ([],0)

theorem keepsFrom_isLineTerminator : KeepsFrom isLineTerminator := by decide

theorem lf_notMem_fromLine (msg : FetchedMessage) : LF ∉ fromLine msg := by
  have hprintable : Printable (js "From MAILER-DAEMON " ++ toUTCString (msg.internalDate.getD (some msg.fetchedAt))) :=
    .append (by decide) (printable_toUTCString _)
  intro hlf
  obtain ⟨c,hc,hcast⟩ := List.mem_map.mp hlf
  obtain ⟨hlo,hhi⟩ := hprintable c hc
  have hbyte := congrArg UInt8.toNat hcast
  rw [UInt16.toNat_toUInt8] at hbyte
  have hlo := UInt16.le_iff_toNat_le.mp hlo
  have hhi := UInt16.lt_iff_toNat_lt.mp hhi
  simp [LF] at hlo hhi hbyte
  omega

theorem delimited_entries (folders : List ExportFolder) : ∀ e ∈ entries folders, e.Delimited := by
  intro e he
  obtain ⟨msg,-,hmsg⟩ := List.mem_filterMap.mp he
  obtain ⟨source,-,rfl⟩ := Option.map_eq_some_iff.mp hmsg
  refine ⟨⟨?_,lf_notMem_fromLine msg⟩,fun line hline => ?_⟩
  · have hfrom : FROM <+: asciiBytes (js "From MAILER-DAEMON ") := List.isPrefixOf_iff_prefix.mp (by decide)
    rw [List.isPrefixOf_iff_prefix]
    exact hfrom.trans (by simp [fromLine,asciiBytes])
  · rw [escapeMbox,splitOn_quoteLines rfl] at hline
    obtain ⟨p,-,rfl⟩ := List.mem_map.mp hline
    exact not_prefix_quoteLines keepsFrom_isLineTerminator p

/-- What is read: the messages, with the `>` that `escapeMbox` has put after bare carriage returns. -/
theorem readMbox_buildMbox (folders : List ExportFolder) :
    readMbox (buildMbox folders).1 = (sources folders).map (quoteLines (fun b => isLineTerminator b && b != LF) false) := by
  rw [buildMbox_eq,readMbox_entries (delimited_entries folders),entries,sources,List.map_filterMap,List.map_filterMap]
  refine List.filterMap_congr fun msg _ => ?_
  rw [entryOf,Option.map_map]
  congr 1
  funext source
  exact unquote_quoteLines keepsFrom_isLineTerminator rfl source

theorem requoted_eq_self_iff (source : Bytes) :
    quoteLines (fun b => isLineTerminator b && b != LF) false source = source ↔ NoBareFrom source := by
  rw [quoteLines_eq_self_iff]
  constructor
  · rintro ⟨-,h⟩ t ht
    exact h CR t ht rfl
  · intro h
    refine ⟨fun habsurd => absurd habsurd (by decide),fun b t ht hb => ?_⟩
    obtain ⟨hterminator,hlf⟩ : (b = LF ∨ b = CR) ∧ ¬b = LF := by simpa [isLineTerminator] using hb
    obtain rfl := hterminator.resolve_left hlf
    exact h t ht

/-- Nothing is lost or changed exactly when no message has a bare carriage return before a "From ". -/
theorem export_lossless_iff (folders : List ExportFolder) :
    readMbox (buildMbox folders).1 = sources folders ↔ ∀ source ∈ sources folders, NoBareFrom source := by
  rw [readMbox_buildMbox]
  conv_lhs => rhs; rw [← List.map_id (sources folders)]
  rw [List.map_inj_left]
  exact forall₂_congr fun source _ => requoted_eq_self_iff source

/-- A carriage return before a "From ": the reader sees no line there and leaves the `>` in. -/
theorem bare_from_changed :
    readMbox (buildMbox [⟨true,[⟨some (asciiBytes (js "a\rFrom b")),none,.epoch⟩]⟩]).1 = [asciiBytes (js "a\r>From b")] ∧
    ¬∀ folders, readMbox (buildMbox folders).1 = sources folders := by
  have hread : readMbox (buildMbox [⟨true,[⟨some (asciiBytes (js "a\rFrom b")),none,.epoch⟩]⟩]).1 = [asciiBytes (js "a\r>From b")] := by
    decide +kernel
  refine ⟨hread,fun h => ?_⟩
  have hsame := (h _).symm.trans hread
  revert hsame
  decide +kernel

end JustMail.Retention
