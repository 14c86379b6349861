import JustMail.Dkim.DnsReconcile
import Mathlib.Data.List.TakeDrop

/-! Synchronisation with a provider that stores whole RRsets (`desec.ts`). -/
namespace JustMail.Dkim
open Foundation

/-- `s.replace(/"\s+"/g, "")`. The first argument holds a quote and the white space
behind it that may yet be deleted. -/
def joinStringsAux : JsString → JsString → JsString
  | pending, [] => pending
  | [], c :: s => if c = QUOTE then joinStringsAux [c] s else c :: joinStringsAux [] s
  | pending, c :: s =>
    if isSpace c then joinStringsAux (pending ++ [c]) s
    else if c = QUOTE then
      if pending.length > 1 then joinStringsAux [] s else pending ++ joinStringsAux [c] s
    else pending ++ c :: joinStringsAux [] s

def joinStrings (s : JsString) : JsString := joinStringsAux [] s

/-- `s.match(/.{1,255}/gs) ?? [""]`. -/
def characterStrings (s : JsString) : List JsString := if s = [] then [[]] else s.toChunks 255

def encodeContent (type content : JsString) (priority : Option Nat) : JsString :=
  if type = TXT then
    (js " ").intercalate ((characterStrings (unquote (joinStrings content))).map fun c => QUOTE :: c ++ [QUOTE])
  else match priority with
    | some p =>
      if type = MX then
        decimal p ++ js " " ++ (if content.getLast? = some DOT then content else content ++ [DOT])
      else content
    | none => content

/-- `Number(text)` for a number in decimal; there is none where that is not a number. -/
def numberOf (text : JsString) : Option Nat := if text ≠ [] ∧ text.all isDigit then some (digitsValue text) else none

def decodeContent (type record : JsString) : JsString × Option Nat :=
  if type = TXT then (unquote (joinStrings record),none)
  else if type = MX then
    let parts := splitSpaces record
    (dropDot ((js " ").intercalate parts.tail),numberOf (parts.headD []))
  else (record,none)

/-- The label below the zone apex, empty for the apex itself. -/
def subnameFor (zone name : JsString) : JsString :=
  let n := dropDot name
  let z := dropDot zone
  if n = z then [] else if (DOT :: z).isSuffixOf n then n.take (n.length - (z.length + 1)) else n

def synthId (subname type : JsString) : JsString := subname ++ js "/" ++ type

structure RRset where
  ttl : Nat
  records : List JsString

/-- The RRsets of a zone by subname, `@` for the apex, and type. -/
structure DesecZone where
  name : JsString
  rrsets : JsString → JsString → Option RRset

def pathKey (subname : JsString) : JsString := if subname = [] then js "@" else subname

namespace DesecZone

def set (zone : DesecZone) (key type : JsString) (rrset : Option RRset) : DesecZone :=
  { zone with rrsets k t := if k = key ∧ t = type then rrset else zone.rrsets k t }

def recordsAt (zone : DesecZone) (key type : JsString) : List JsString :=
  ((zone.rrsets key type).map (·.records)).getD []

def listRecords (zone : DesecZone) (name type : JsString) : List (ProviderRecord JsString) :=
  let subname := subnameFor zone.name name
  match zone.rrsets (pathKey subname) type with
  | none => []
  | some rrset => rrset.records.map fun record =>
    let (content,priority) := decodeContent type record
    ⟨⟨⟨type,dropDot name,content⟩,rrset.ttl,priority⟩,synthId subname type⟩

/-- The RRset is replaced by one with this record, whatever was to be overwritten. -/
def upsertRecord (zone : DesecZone) (_existing : Option (ProviderRecord JsString)) (payload : Payload) :
    Option (ProviderRecord JsString × DesecZone) :=
  let subname := subnameFor zone.name payload.name
  let rrset : RRset := ⟨max payload.ttl 3600,[encodeContent payload.type payload.content payload.priority]⟩
  some (⟨payload,synthId subname payload.type⟩,zone.set (pathKey subname) payload.type (some rrset))

def deleteRecord (zone : DesecZone) (id : JsString) : DesecZone :=
  let parts := id.splitOn (unit '/')
  zone.set (pathKey (parts.getD 0 [])) (parts.getD 1 []) none

end DesecZone

def desec : DnsProvider DesecZone JsString where
  listRecords := DesecZone.listRecords
  upsertRecord := DesecZone.upsertRecord
  deleteRecord := DesecZone.deleteRecord

section Sync
variable (cm : CaseMapping) {rows : List RecordRow} {zone : DesecZone} {r : RecordRow}

/-- The records the reconciler must leave alone: TXT of no known kind, MX for hosts of
others, and CAA. -/
def Foreign (rows : List RecordRow) (type content : JsString) : Prop :=
  (type = TXT ∧ txtKind cm content = none) ∨
  (type = MX ∧ ∀ r ∈ rows, r.type = MX → mxHost cm content ≠ mxHost cm r.content) ∨
  type = CAA

/-- Every foreign record is still listed after the run. -/
def KeepsForeign (rows : List RecordRow) (zone zone' : DesecZone) : Prop :=
  ∀ key type, ∀ record ∈ zone.recordsAt key type, Foreign cm rows type (decodeContent type record).1 →
    ∃ record' ∈ zone'.recordsAt key type, decodeContent type record' = decodeContent type record

def Writes (zoneName key type : JsString) (r : RecordRow) : Prop :=
  pathKey (subnameFor zoneName r.name) = key ∧ r.type = type

instance (zoneName key type : JsString) : DecidablePred (Writes zoneName key type) :=
  fun _ => inferInstanceAs (Decidable (_ ∧ _))

def lastWriter (zoneName key type : JsString) (rows : List RecordRow) : Option RecordRow :=
  rows.reverse.find? (Writes zoneName key type)

/-- All records listed and written for one row share one id, so that none is stale. -/
theorem staleDuplicates_desec (payload : Payload) :
    staleDuplicates cm r.toExpectedRecord (zone.listRecords r.name r.type)
      (some ⟨payload,synthId (subnameFor zone.name r.name) r.type⟩) = [] := by
  have hid : ∀ e ∈ zone.listRecords r.name r.type, e.id = synthId (subnameFor zone.name r.name) r.type := by
    intro e he
    rw [DesecZone.listRecords] at he
    cases hset : zone.rrsets (pathKey (subnameFor zone.name r.name)) r.type with
    | none => simp [hset] at he
    | some rrset =>
      simp only [hset,List.mem_map] at he
      obtain ⟨record,-,rfl⟩ := he
      rfl
  rw [staleDuplicates]
  split
  · rfl
  · split
    · rfl
    · refine List.filter_eq_nil_iff.mpr fun e he => ?_
      simp [hid e he]

/-- One row: its RRset holds its record and nothing else. -/
theorem syncRow_desec (zone : DesecZone) (r : RecordRow) : ∃ entry, entry.action ≠ .error ∧
    syncRow cm desec zone r = some (entry,zone.set (pathKey (subnameFor zone.name r.name)) r.type
      (some ⟨max r.ttl 3600,[encodeContent r.type r.content r.priority]⟩)) := by
  obtain ⟨entry,haction,hsync⟩ := syncRow_of_upsert cm desec
    (show desec.upsertRecord zone (chooseExisting cm r.toExpectedRecord (desec.listRecords zone r.name r.type))
      r.toPayload = _ from rfl)
  refine ⟨entry,haction,hsync.trans ?_⟩
  change some (entry,List.foldl _ _ (staleDuplicates cm r.toExpectedRecord (zone.listRecords r.name r.type)
    (some ⟨r.toPayload,synthId (subnameFor zone.name r.name) r.type⟩))) = _
  rw [staleDuplicates_desec]
  rfl

theorem recordsAt_set (key type k t : JsString) (rrset : RRset) :
    (zone.set key type (some rrset)).recordsAt k t =
      if k = key ∧ t = type then rrset.records else zone.recordsAt k t := by
  simp only [DesecZone.recordsAt,DesecZone.set]
  split <;> rfl

/-- The whole run: each RRset is what the last row that writes it makes of it. -/
theorem sync_desec (rows : List RecordRow) (zone : DesecZone) (key type : JsString) :
    ErrorFree (syncToProvider cm desec rows zone).1 ∧
    (syncToProvider cm desec rows zone).2.recordsAt key type =
      match lastWriter zone.name key type rows with
      | some r => [encodeContent type r.content r.priority]
      | none => zone.recordsAt key type := by
  induction rows generalizing zone with
  | nil => exact ⟨fun a ha => absurd ha List.not_mem_nil,rfl⟩
  | cons r rows ih =>
    obtain ⟨entry,haction,hsync⟩ := syncRow_desec cm zone r
    obtain ⟨herr,hrecords⟩ := ih (zone.set (pathKey (subnameFor zone.name r.name)) r.type
      (some ⟨max r.ttl 3600,[encodeContent r.type r.content r.priority]⟩))
    rw [syncToProvider_cons cm hsync]
    refine ⟨?_,?_⟩
    · rintro a (_ | ⟨_,ha⟩)
      · exact haction
      · exact herr a ha
    · rw [hrecords,lastWriter,lastWriter,List.reverse_cons,List.find?_append]
      change (match rows.reverse.find? (Writes zone.name key type) with
        | some r => [encodeContent type r.content r.priority]
        | none => _) = _
      cases rows.reverse.find? (Writes zone.name key type) with
      | some last => rfl
      | none =>
        rw [Option.none_or,recordsAt_set]
        by_cases hwrites : Writes zone.name key type r
        · obtain ⟨rfl,rfl⟩ := hwrites
          rw [if_pos ⟨rfl,rfl⟩,List.find?_cons_of_pos (by simp [Writes])]
        · rw [if_neg fun h => hwrites ⟨h.1.symm,h.2.symm⟩,List.find?_cons_of_neg (by simpa using hwrites)]
          rfl

/-- Foreign records survive exactly where the RRset is not written, or the last row
that writes it stores what they read. -/
theorem desec_keeps_foreign_iff (rows : List RecordRow) (zone : DesecZone) :
    KeepsForeign cm rows zone (syncToProvider cm desec rows zone).2 ↔
      ∀ key type, ∀ record ∈ zone.recordsAt key type, Foreign cm rows type (decodeContent type record).1 →
        ∀ r ∈ lastWriter zone.name key type rows,
          decodeContent type (encodeContent type r.content r.priority) = decodeContent type record := by
  refine forall_congr' fun key => forall_congr' fun type => forall_congr' fun record => ?_
  refine imp_congr_right fun hrecord => imp_congr_right fun _ => ?_
  rw [(sync_desec cm rows zone key type).2]
  cases lastWriter zone.name key type rows with
  | none =>
    refine iff_of_true ⟨record,hrecord,rfl⟩ ?_
    simp
  | some r => simp

def verifiedZone : DesecZone where
  name := js "ex.com"
  rrsets key type :=
    if key = js "@" ∧ type = TXT then some ⟨3600,[js "\"site-verification=1\""]⟩ else none

def apexSpfRow : RecordRow := ⟨⟨⟨TXT,js "ex.com",js "v=spf1 mx ~all"⟩,3600,none⟩,1,.spf⟩

/-- The SPF row of the apex replaces it. -/
theorem desec_drops_verification :
    ErrorFree (syncToProvider asciiCase desec [apexSpfRow] verifiedZone).1 ∧
    ¬KeepsForeign asciiCase [apexSpfRow] verifiedZone (syncToProvider asciiCase desec [apexSpfRow] verifiedZone).2 := by
  refine ⟨(sync_desec asciiCase _ _ [] []).1,fun h => ?_⟩
  have hkept := h (js "@") TXT (js "\"site-verification=1\"") (by decide +kernel) (.inl ⟨rfl,by decide +kernel⟩)
  revert hkept
  decide +kernel

end Sync
end JustMail.Dkim
