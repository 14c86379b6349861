import JustMail.Dav.InPlace
import JustMail.Foundation.CodeUnits
import JustMail.Storage.LocalAdapter

/-! `GET attachments/:id/download` of `attachments.controller.ts` on the local backend: one
range of the Range header, and the bytes that the adapter streams for it. -/
namespace JustMail.Downloads
open Foundation
open Dav (encodeURIComponent)
open Storage.Local (storageKey fsStat)

/-- Decimal digits, at least one. -/
def Numeral (s : JsString) : Prop := s ≠ [] ∧ ∀ c ∈ s, isDigit c = true

/-- The integers that numerals are converted to, and `Infinity`. -/
inductive Number where
  | finite (n : Int)
  | infinite
  deriving DecidableEq

def Number.le : Number → Number → Bool
  | _, .infinite => true
  | .infinite, .finite _ => false
  | .finite m, .finite n => m ≤ n

/-- `Math.min`. -/
def Number.min (x y : Number) : Number := if x.le y then x else y

/-- `Number(s)` of numerals: exact below 2^53, where the doubles are dense enough, and monotone. -/
structure NumberConversion where
  toNumber : JsString → Number
  exact (s : JsString) : Numeral s → digitsValue s < 2^53 → toNumber s = .finite (digitsValue s)
  monotone (s t : JsString) : Numeral s → Numeral t → digitsValue s ≤ digitsValue t → (toNumber s).le (toNumber t) = true

/-- `/^bytes=(\d*)-(\d*)$/`. -/
def rangeGroups (s : JsString) : Option (JsString × JsString) :=
  match (js "bytes=").isPrefixOf? s with
  | none => none
  | some range =>
    let rest := range.dropWhile isDigit
    if rest.head? = some (unit '-') ∧ rest.tail.all isDigit = true then some (range.takeWhile isDigit,rest.tail) else none

/-- `undefined`, `"invalid"` or the positions, both included. -/
inductive ParsedRange where
  | absent
  | invalid
  | range (start last : Int)
  deriving DecidableEq

def Number.value : Number → Int
  | .finite n => n
  | .infinite => 0

/-- The test at the end of `parseRange`. Numbers that pass it are finite. -/
def bounded (size : Nat) (start last : Number) : ParsedRange :=
  if start.le last = false ∨ (Number.finite size).le start = true then .invalid else .range start.value last.value

/-- `Math.max(0, size - suffix)`. -/
def suffixStart (size : Nat) : Number → Number
  | .infinite => .finite 0
  | .finite suffix => .finite (if (size : Int) - suffix < 0 then 0 else size - suffix)

def parseRange (conversion : NumberConversion) (header : Option JsString) (size : Nat) : ParsedRange :=
  if header.getD [] = [] then .absent
  else
    match rangeGroups (trim (header.getD [])) with
    | none => .invalid
    | some (rawStart,rawEnd) =>
      if rawStart = [] ∧ rawEnd = [] then .invalid
      else if rawStart = [] then
        let suffix := conversion.toNumber rawEnd
        if suffix = .finite 0 then .invalid else bounded size (suffixStart size suffix) (.finite (size - 1))
      else
        bounded size (conversion.toNumber rawStart)
          (if rawEnd = [] then .finite (size - 1) else (conversion.toNumber rawEnd).min (.finite (size - 1)))

section Download

inductive VirusStatus where
  | pending
  | clean
  | infected
  | error
  deriving DecidableEq

/-- What a download reads of a row. The size is the length of the Buffer that was stored,
so `Number(r.size_bytes)` is exact. The hash is a digest in hexadecimal. -/
structure AttachmentRow where
  filename : JsString
  mime : JsString
  sizeBytes : Nat
  contentHash : JsString
  virusStatus : VirusStatus
  safe : sizeBytes < 2^53
  digest : ∀ c ∈ contentHash, isDigit c = true ∨ 97 ≤ c ∧ c ≤ 102

inductive Failure where
  | http (status : Nat) (title : JsString)
  | uriError
  | invalidChar
  | storage (e : Storage.Local.LocalError)
  deriving DecidableEq

/-- The headers that the handler sets. -/
structure Headers where
  contentType : Option JsString := none
  contentTypeOptions : Option JsString := none
  contentDisposition : Option JsString := none
  etag : Option JsString := none
  acceptRanges : Option JsString := none
  cacheControl : Option JsString := none
  contentRange : Option JsString := none
  contentLength : Option JsString := none
  deriving DecidableEq

structure Response where
  status : Nat
  headers : Headers
  body : List UInt8
  deriving DecidableEq

section Service
variable (access : Except Failure Unit) (row : Option AttachmentRow)

/-- `get`: the access to the organisation is decided first. -/
def get : Except Failure AttachmentRow := do
  access
  match row with
  | none => throw (.http 404 (js "Attachment not found"))
  | some att => pure att

def forDownload : Except Failure AttachmentRow := do
  let att ← get access row
  if att.virusStatus = .infected then throw (.http 400 (js "Attachment quarantined")) else pure att

end Service

section Controller
variable (conversion : NumberConversion) (adapter : Storage.Local.LocalAdapter) (orgId : JsString) (d : FileSystem.Disk)

def objectKey (contentHash : JsString) : JsString := storageKey orgId [js "attachments/" ++ contentHash]

def openStream (contentHash : JsString) (range : Option Storage.Range) : Except Failure (List UInt8) :=
  (adapter.getStream (objectKey orgId contentHash) range d).1.mapError .storage

/-- `ifNoneMatch && ifNoneMatch.split(",").some((t) => t.trim() === etag)`. -/
def isFresh (ifNoneMatch : Option JsString) (etag : JsString) : Bool :=
  ifNoneMatch.any fun tags => tags ≠ [] && (tags.splitOn (unit ',')).any fun t => trim t = etag

/-- What is left by `/[^\t\x20-\x7e\x80-\xff]/`. -/
def isHeaderUnit (c : CodeUnit) : Bool := c = 9 || (32 ≤ c && c ≤ 126) || (128 ≤ c && c ≤ 255)

/-- `res.setHeader`, which throws ERR_INVALID_CHAR. -/
def setHeader (value : JsString) : Except Failure JsString := if value.all isHeaderUnit then pure value else throw .invalidChar

/-- The headers of every answer but 304. -/
def safeHeaders (att : AttachmentRow) (etag : JsString) : Except Failure Headers := do
  let contentType ← setHeader (if att.mime = [] then js "application/octet-stream" else att.mime)
  match encodeURIComponent att.filename with
  | none => throw .uriError
  | some encoded => do
    let contentDisposition ← setHeader (js "attachment; filename*=UTF-8''" ++ encoded)
    let etag ← setHeader etag
    pure {
      contentType := some contentType
      contentTypeOptions := some (js "nosniff")
      contentDisposition := some contentDisposition
      etag := some etag
      acceptRanges := some (js "bytes")
      cacheControl := some (js "private, max-age=0, must-revalidate") }

def download (access : Except Failure Unit) (row : Option AttachmentRow) (rangeHeader ifNoneMatch : Option JsString) :
    Except Failure Response := do
  let att ← forDownload access row
  let etag := js "\"" ++ att.contentHash ++ js "\""
  let size := att.sizeBytes
  if isFresh ifNoneMatch etag then do
    let etag ← setHeader etag
    pure ⟨304,{ etag := some etag },[]⟩
  else do
    let headers ← safeHeaders att etag
    match parseRange conversion rangeHeader size with
    | .invalid => pure ⟨416,{ headers with contentRange := some (js "bytes */" ++ decimal size) },[]⟩
    | .range start last => do
      let stream ← openStream adapter orgId d att.contentHash (some ⟨start.toNat,some last.toNat⟩)
      pure ⟨206,
        { headers with
          contentRange := some (js "bytes " ++ decimalInt start ++ js "-" ++ decimalInt last ++ js "/" ++ decimal size)
          contentLength := some (decimalInt (last - start + 1)) },stream⟩
    | .absent => do
      let stream ← openStream adapter orgId d att.contentHash none
      pure ⟨200,{ headers with contentLength := some (decimal size) },stream⟩

end Controller

end Download

section Ranges

/-- What one range asks for: `a-b`, `a-` and `-k`. -/
inductive RangeSpec where
  | between (a b : Nat)
  | onwards (a : Nat)
  | ending (k : Nat)
  deriving DecidableEq

namespace RangeSpec

/-- How a range is written. -/
def Spelled : RangeSpec → JsString → Prop
  | between a b, s => ∃ first last, Numeral first ∧ Numeral last ∧ digitsValue first = a ∧ digitsValue last = b ∧
      s = js "bytes=" ++ (first ++ unit '-' :: last)
  | onwards a, s => ∃ first, Numeral first ∧ digitsValue first = a ∧ s = js "bytes=" ++ (first ++ [unit '-'])
  | ending k, s => ∃ last, Numeral last ∧ digitsValue last = k ∧ s = js "bytes=" ++ unit '-' :: last

def WellFormed : RangeSpec → Prop
  | between a b => a ≤ b
  | onwards _ => True
  | ending k => 1 ≤ k

/-- The positions of an object of `n` bytes that are asked for. -/
def Selects (n : Nat) : RangeSpec → Nat → Prop
  | between a b, i => a ≤ i ∧ i ≤ b ∧ i < n
  | onwards a, i => a ≤ i ∧ i < n
  | ending k, i => n ≤ i + k ∧ i < n

def first (n : Nat) : RangeSpec → Nat
  | between a _ => a
  | onwards a => a
  | ending k => max 0 (n - k)

def last (n : Nat) : RangeSpec → Nat
  | between _ b => min b (n - 1)
  | onwards _ => n - 1
  | ending _ => n - 1

variable {n i : Nat} {spec : RangeSpec}

/-- The range is one that can be answered. -/
def Answered (n : Nat) (spec : RangeSpec) : Prop := spec.WellFormed ∧ ∃ i, spec.Selects n i

theorem Answered.bounds (h : spec.Answered n) : spec.first n ≤ spec.last n ∧ spec.last n < n := by
  obtain ⟨hwell,j,hj⟩ := h
  cases spec with
  | between a b =>
    simp only [WellFormed,Selects,first,last] at hwell hj ⊢
    omega
  | onwards a =>
    simp only [Selects,first,last] at hj ⊢
    omega
  | ending k =>
    simp only [WellFormed,Selects,first,last] at hwell hj ⊢
    omega

theorem answered_between {a b : Nat} : (between a b).Answered n ↔ a ≤ b ∧ a < n := by
  constructor
  · rintro ⟨hwell,i,ha,-,hn⟩
    exact ⟨hwell,ha.trans_lt hn⟩
  · rintro ⟨hle,hn⟩
    exact ⟨hle,a,le_rfl,hle,hn⟩

theorem answered_onwards {a : Nat} : (onwards a).Answered n ↔ a < n := by
  constructor
  · rintro ⟨-,i,ha,hn⟩
    exact ha.trans_lt hn
  · intro hn
    exact ⟨trivial,a,le_rfl,hn⟩

theorem answered_ending {k : Nat} : (ending k).Answered n ↔ 1 ≤ k ∧ 0 < n := by
  constructor
  · rintro ⟨hwell,i,-,hn⟩
    exact ⟨hwell,Nat.zero_lt_of_lt hn⟩
  · rintro ⟨hk,hn⟩
    refine ⟨hk,n - 1,?_,?_⟩
    · omega
    · omega

end RangeSpec

def groupSpec (groups : JsString × JsString) : Option RangeSpec :=
  if groups.1 = [] then if groups.2 = [] then none else some (.ending (digitsValue groups.2))
  else if groups.2 = [] then some (.onwards (digitsValue groups.1))
  else some (.between (digitsValue groups.1) (digitsValue groups.2))

variable {s rawStart rawEnd : JsString} {spec : RangeSpec}

theorem rangeGroups_iff : rangeGroups s = some (rawStart,rawEnd) ↔
    (∀ c ∈ rawStart, isDigit c = true) ∧ (∀ c ∈ rawEnd, isDigit c = true) ∧ s = js "bytes=" ++ (rawStart ++ unit '-' :: rawEnd) := by
  unfold rangeGroups
  constructor
  · intro h
    split at h
    · cases h
    · rename_i range hrange
      dsimp only at h
      obtain ⟨⟨hdash,hdigits⟩,heq⟩ := Option.ite_none_right_eq_some.mp h
      cases heq
      refine ⟨fun c hc => List.mem_takeWhile_imp hc,List.all_eq_true.mp hdigits,?_⟩
      rw [List.cons_head?_tail hdash,List.takeWhile_append_dropWhile]
      exact (List.isPrefixOf?_eq_some_iff_append_eq.mp hrange).symm
  · rintro ⟨hstart,hend,rfl⟩
    have hrange : (js "bytes=").isPrefixOf? (js "bytes=" ++ (rawStart ++ unit '-' :: rawEnd)) = some (rawStart ++ unit '-' :: rawEnd) :=
      List.isPrefixOf?_eq_some_iff_append_eq.mpr rfl
    have hspan := span_run (t := unit '-' :: rawEnd) hstart (by simp; decide)
    rw [hrange]
    dsimp only
    rw [hspan.1,hspan.2,if_pos ⟨List.head?_cons,List.all_eq_true.mpr hend⟩,List.tail_cons]

theorem spelled_iff : spec.Spelled s ↔ (rangeGroups s).bind groupSpec = some spec := by
  rw [Option.bind_eq_some_iff]
  constructor
  · intro h
    cases spec with
    | between a b =>
      obtain ⟨first,last,hfirst,hlast,rfl,rfl,rfl⟩ := h
      refine ⟨(first,last),rangeGroups_iff.mpr ⟨hfirst.2,hlast.2,rfl⟩,?_⟩
      simp [groupSpec,hfirst.1,hlast.1]
    | onwards a =>
      obtain ⟨first,hfirst,rfl,rfl⟩ := h
      refine ⟨(first,[]),rangeGroups_iff.mpr ⟨hfirst.2,by simp,rfl⟩,?_⟩
      simp [groupSpec,hfirst.1]
    | ending k =>
      obtain ⟨last,hlast,rfl,rfl⟩ := h
      refine ⟨([],last),rangeGroups_iff.mpr ⟨by simp,hlast.2,rfl⟩,?_⟩
      simp [groupSpec,hlast.1]
  · rintro ⟨⟨rawStart,rawEnd⟩,hgroups,hspec⟩
    obtain ⟨hstart,hend,rfl⟩ := rangeGroups_iff.mp hgroups
    rw [groupSpec] at hspec
    dsimp only at hspec
    split at hspec
    · rename_i hnil
      obtain ⟨hne,heq⟩ := Option.ite_none_left_eq_some.mp hspec
      cases heq
      subst hnil
      exact ⟨rawEnd,⟨hne,hend⟩,rfl,rfl⟩
    · rename_i hne
      split at hspec
      · rename_i hnil
        cases hspec
        subst hnil
        exact ⟨rawStart,⟨hne,hstart⟩,rfl,rfl⟩
      · rename_i hne'
        cases hspec
        exact ⟨rawStart,rawEnd,⟨hne,hstart⟩,⟨hne',hend⟩,rfl,rfl,rfl⟩

end Ranges

section Conversion
variable (conversion : NumberConversion) {s : JsString} {n m : Nat}

theorem Number.le_finite {m n : Int} : (Number.finite m).le (.finite n) = true ↔ m ≤ n := decide_eq_true_iff

/-- A numeral beyond the safe integers is beyond every number of bytes. -/
theorem le_toNumber (h : Numeral s) (hm : m < 2^53) (hle : m ≤ digitsValue s) : (Number.finite m).le (conversion.toNumber s) = true := by
  have hdecimal : Numeral (decimal m) := ⟨decimal_ne_nil m,decimal_digits m⟩
  have hexact := conversion.exact (decimal m) hdecimal (by rwa [digitsValue_decimal])
  rw [digitsValue_decimal] at hexact
  rw [← hexact]
  exact conversion.monotone _ _ hdecimal h (by rwa [digitsValue_decimal])

theorem min_toNumber (h : Numeral s) (hm : m < 2^53) :
    (conversion.toNumber s).min (.finite m) = .finite ((min (digitsValue s) m : Nat) : Int) := by
  by_cases hle : m ≤ digitsValue s
  · rw [Nat.min_eq_right hle,Number.min]
    split
    · rename_i hback
      have hbeyond := le_toNumber conversion h hm hle
      cases hnumber : conversion.toNumber s with
      | infinite =>
        rw [hnumber] at hback
        cases hback
      | finite k =>
        rw [hnumber,Number.le_finite] at hback hbeyond
        rw [Int.le_antisymm hback hbeyond]
    · rfl
  · rw [conversion.exact s h (by omega),Nat.min_eq_left (by omega),Number.min,if_pos (Number.le_finite.mpr (by omega))]

theorem toNumber_eq_zero_iff (h : Numeral s) : conversion.toNumber s = .finite 0 ↔ digitsValue s = 0 := by
  constructor
  · intro hzero
    by_contra hne
    have hone := le_toNumber conversion (m := 1) h (by omega) (by omega)
    rw [hzero,Number.le_finite] at hone
    omega
  · intro hzero
    rw [conversion.exact s h (by omega),hzero]
    rfl

theorem suffixStart_toNumber (h : Numeral s) (hn : n < 2^53) :
    suffixStart n (conversion.toNumber s) = .finite ((n - digitsValue s : Nat) : Int) := by
  by_cases hle : n ≤ digitsValue s
  · have hbeyond := le_toNumber conversion h hn hle
    rw [Nat.sub_eq_zero_of_le hle]
    cases hnumber : conversion.toNumber s with
    | infinite => rfl
    | finite k =>
      rw [hnumber,Number.le_finite] at hbeyond
      rw [suffixStart]
      split
      · rfl
      · exact congrArg Number.finite (by omega)
  · rw [conversion.exact s h (by omega),suffixStart,if_neg (by omega)]
    exact congrArg Number.finite (by omega)

theorem bounded_finite (start last : Int) : bounded n (.finite start) (.finite last) =
    if last < start ∨ (n : Int) ≤ start then .invalid else .range start last := by
  have hle : (Number.finite start).le (.finite last) = false ↔ last < start := by
    rw [← Bool.not_eq_true,Number.le_finite]
    omega
  rw [bounded]
  simp only [hle,Number.le_finite,Number.value]

/-- The range from a first position, with its last one below the size. -/
theorem bounded_onwards (h : Numeral s) (hn : n < 2^53) (last : Nat) {end' : Int}
    (hend : 0 < n → end' = last) :
    bounded n (conversion.toNumber s) (.finite end') =
      if digitsValue s < n ∧ digitsValue s ≤ last then .range (digitsValue s) last else .invalid := by
  by_cases hle : n ≤ digitsValue s
  · rw [bounded,if_pos (.inr (le_toNumber conversion h hn hle)),if_neg (by omega)]
  · have hend' := hend (by omega)
    rw [conversion.exact s h (by omega),bounded_finite,hend']
    split
    · rw [if_neg (by omega)]
    · rw [if_pos (by omega)]

end Conversion

section Exactness
variable (conversion : NumberConversion) {header : JsString} {n : Nat} {spec : RangeSpec}

/-- A header with a range is answered with its two ends, where they lie in the object. -/
theorem parseRange_spelled (hne : header ≠ []) (hn : n < 2^53) (hspec : spec.Spelled (trim header)) :
    (spec.Answered n → parseRange conversion (some header) n = .range (spec.first n) (spec.last n)) ∧
    (¬ spec.Answered n → parseRange conversion (some header) n = .invalid) := by
  obtain ⟨⟨rawStart,rawEnd⟩,hgroups,hspec⟩ := Option.bind_eq_some_iff.mp (spelled_iff.mp hspec)
  obtain ⟨hstart,hend,-⟩ := rangeGroups_iff.mp hgroups
  have hparse : parseRange conversion (some header) n = (if rawStart = [] ∧ rawEnd = [] then .invalid
      else if rawStart = [] then
        if conversion.toNumber rawEnd = .finite 0 then .invalid
        else bounded n (suffixStart n (conversion.toNumber rawEnd)) (.finite (n - 1))
      else
        bounded n (conversion.toNumber rawStart)
          (if rawEnd = [] then .finite (n - 1) else (conversion.toNumber rawEnd).min (.finite (n - 1)))) := by
    rw [parseRange,Option.getD_some,if_neg hne,hgroups]
  rw [hparse]
  rw [groupSpec] at hspec
  dsimp only at hspec
  split at hspec
  · rename_i hnil
    obtain ⟨hne',heq⟩ := Option.ite_none_left_eq_some.mp hspec
    cases heq
    have hnumeral : Numeral rawEnd := ⟨hne',hend⟩
    rw [if_neg (fun h => hne' h.2),if_pos hnil,RangeSpec.answered_ending]
    simp only [toNumber_eq_zero_iff conversion hnumeral,suffixStart_toNumber conversion hnumeral hn,
      bounded_finite,RangeSpec.first,RangeSpec.last]
    constructor
    · rintro ⟨hk,hpos⟩
      have hlast : (n : Int) - 1 = ((n - 1 : Nat) : Int) := by omega
      rw [if_neg (by omega),if_neg (by omega),hlast,Nat.max_eq_right (Nat.zero_le _)]
    · intro hnot
      split
      · rfl
      · rw [if_pos (by omega)]
  · rename_i hne'
    have hnumeral : Numeral rawStart := ⟨hne',hstart⟩
    rw [if_neg (fun h => hne' h.1),if_neg hne']
    split at hspec
    · rename_i hnil
      cases hspec
      rw [if_pos hnil,RangeSpec.answered_onwards,bounded_onwards conversion hnumeral hn (n - 1) (by omega)]
      constructor
      · intro h
        exact if_pos ⟨h,by omega⟩
      · intro h
        exact if_neg fun h' => h h'.1
    · rename_i hne''
      cases hspec
      have hnumeral' : Numeral rawEnd := ⟨hne'',hend⟩
      rw [if_neg hne'',RangeSpec.answered_between]
      by_cases hpos : 0 < n
      · have hpred : ((n : Int) - 1) = ((n - 1 : Nat) : Int) := by omega
        rw [hpred,min_toNumber conversion hnumeral' (by omega),
          bounded_onwards conversion hnumeral hn _ (fun _ => rfl)]
        constructor
        · rintro ⟨hle,hlt⟩
          exact if_pos ⟨hlt,by omega⟩
        · intro h
          exact if_neg fun h' => h ⟨by omega,h'.1⟩
      · have hzero : n = 0 := by omega
        subst hzero
        have hbeyond := le_toNumber conversion (m := 0) hnumeral (by omega) (Nat.zero_le _)
        exact ⟨fun h => absurd h.2 (Nat.not_lt_zero _),fun _ => if_pos (.inr hbeyond)⟩

theorem parseRange_unspelled (hne : header ≠ []) (h : ∀ spec : RangeSpec, ¬ spec.Spelled (trim header)) :
    parseRange conversion (some header) n = .invalid := by
  rw [parseRange,Option.getD_some,if_neg hne]
  cases hgroups : rangeGroups (trim header) with
  | none => rfl
  | some groups =>
    obtain ⟨rawStart,rawEnd⟩ := groups
    have hnone : groupSpec (rawStart,rawEnd) = none := by
      cases hspec : groupSpec (rawStart,rawEnd) with
      | none => rfl
      | some spec =>
        refine absurd (spelled_iff.mpr ?_) (h spec)
        rw [hgroups]
        exact hspec
    have hnil : rawStart = [] ∧ rawEnd = [] := by
      rw [groupSpec] at hnone
      dsimp only at hnone
      split at hnone
      · rename_i hstart
        split at hnone
        · exact ⟨hstart,‹_›⟩
        · cases hnone
      · split at hnone
        · cases hnone
        · cases hnone
    exact if_pos hnil

end Exactness

section Answers
variable (conversion : NumberConversion) {adapter : Storage.Local.LocalAdapter} {orgId : JsString} {d : FileSystem.Disk}
  {att : AttachmentRow} {data : List UInt8} {header : JsString} {spec : RangeSpec} {key : JsString}

/-- The attachment is stored: its object has as many bytes as the row says, and its name,
which came from the database, has no half of a surrogate pair. -/
structure Stored (adapter : Storage.Local.LocalAdapter) (orgId : JsString) (d : FileSystem.Disk) (att : AttachmentRow)
    (data : List UInt8) : Prop where
  file : (fsStat (adapter.path (objectKey orgId att.contentHash)) d).1 = .ok (some data)
  size : att.sizeBytes = data.length
  name : (encodeURIComponent att.filename).isSome = true

theorem createReadStream_between {start last : Nat} (hle : start ≤ last) :
    Storage.createReadStream data (some start) (some last) = .ok (slice data start (some last)) := by
  rw [Storage.createReadStream,if_neg]
  · rfl
  · simpa using hle

theorem getStream_file {range : Option Storage.Range} {bytes : List UInt8} (h : (fsStat (adapter.path key) d).1 = .ok (some data))
    (hread : Storage.createReadStream data (range.map (·.start)) (range.bind (·.last)) = .ok bytes) :
    (adapter.getStream key range d).1 = .ok bytes := by
  rw [Storage.Local.LocalAdapter.getStream,FileSystem.Fs.bind_apply,FileSystem.Fs.tryCatch_apply]
  rcases hstat : fsStat (adapter.path key) d with ⟨result,d'⟩
  rw [hstat] at h
  dsimp only at h
  subst h
  dsimp only
  rw [hread]
  rfl

theorem slice_length {first last : Nat} (hle : first ≤ last) (hlast : last < data.length) :
    (slice data first (some last)).length = last - first + 1 := by
  rw [slice,List.length_take,List.length_drop]
  omega

theorem setHeader_ok {value : JsString} (h : ∀ c ∈ value, isHeaderUnit c = true) :
    setHeader value = .ok value := if_pos (List.all_eq_true.mpr h)

theorem headerUnits_encoded {name encoded : JsString} (h : encodeURIComponent name = some encoded) :
    ∀ c ∈ encoded, isHeaderUnit c = true := by
  have hbyte : ∀ k < 256, ∀ c ∈ (if Dav.isUriMark (UInt8.ofNat k) then [(UInt8.ofNat k).toUInt16] else Dav.percentByte (UInt8.ofNat k)),
      isHeaderUnit c = true := by decide +kernel
  obtain ⟨-,hencoded⟩ := Option.ite_none_right_eq_some.mp h
  cases hencoded
  intro c hc
  obtain ⟨b,-,hb⟩ := List.mem_flatMap.mp hc
  have hunit := hbyte b.toNat b.toNat_lt
  rw [UInt8.ofNat_toNat] at hunit
  exact hunit c hb

/-- The type of the row is the only header that may be refused. -/
theorem safeHeaders_eq (hstored : Stored adapter orgId d att data) : ∃ headers : Headers,
    safeHeaders att (js "\"" ++ att.contentHash ++ js "\"") = if att.mime.all isHeaderUnit then .ok headers else .error .invalidChar := by
  obtain ⟨encoded,hencoded⟩ := Option.isSome_iff_exists.mp hstored.name
  have hname : ∀ c ∈ js "attachment; filename*=UTF-8''", isHeaderUnit c = true := by decide
  have hdisposition : setHeader (js "attachment; filename*=UTF-8''" ++ encoded) = .ok (js "attachment; filename*=UTF-8''" ++ encoded) :=
    setHeader_ok (List.forall_mem_append.mpr ⟨hname,headerUnits_encoded hencoded⟩)
  have hquote : ∀ c ∈ js "\"", isHeaderUnit c = true := by decide
  have hdigest : ∀ c ∈ att.contentHash, isHeaderUnit c = true := by
    intro c hc
    have hrange : 32 ≤ c ∧ c ≤ 126 := by
      rcases att.digest c hc with hdigit | hletter
      · exact of_isDigit (p := fun c => 32 ≤ c ∧ c ≤ 126) (by decide) hdigit
      · simp only [UInt16.le_iff_toNat_le,UInt16.reduceToNat] at hletter ⊢
        omega
    simp [isHeaderUnit,hrange]
  have hetag : setHeader (js "\"" ++ att.contentHash ++ js "\"") = .ok (js "\"" ++ att.contentHash ++ js "\"") :=
    setHeader_ok (List.forall_mem_append.mpr ⟨List.forall_mem_append.mpr ⟨hquote,hdigest⟩,hquote⟩)
  have htype : (if att.mime = [] then js "application/octet-stream" else att.mime).all isHeaderUnit = att.mime.all isHeaderUnit := by
    split
    · rename_i hempty
      rw [hempty]
      decide
    · rfl
  rw [safeHeaders,setHeader,htype]
  split
  · exact ⟨_,by simp only [bind,Except.bind,pure,Except.pure,hencoded,hdisposition,hetag]; rfl⟩
  · exact ⟨{},rfl⟩

/-- The handler, with an authorised row and no If-None-Match. -/
theorem download_eq (header : JsString) {access : Except Failure Unit} (haccess : forDownload access (some att) = .ok att)
    (hstored : Stored adapter orgId d att data) (hmime : att.mime.all isHeaderUnit = true) : ∃ headers : Headers,
    download conversion adapter orgId d access (some att) (some header) none =
      match parseRange conversion (some header) data.length with
      | .invalid => .ok ⟨416,{ headers with contentRange := some (js "bytes */" ++ decimal data.length) },[]⟩
      | .range start last => (openStream adapter orgId d att.contentHash (some ⟨start.toNat,some last.toNat⟩)).map fun stream =>
        ⟨206,
          { headers with
            contentRange := some (js "bytes " ++ decimalInt start ++ js "-" ++ decimalInt last ++ js "/" ++ decimal data.length)
            contentLength := some (decimalInt (last - start + 1)) },stream⟩
      | .absent => (openStream adapter orgId d att.contentHash none).map fun stream =>
        ⟨200,{ headers with contentLength := some (decimal data.length) },stream⟩ := by
  obtain ⟨headers,hheaders⟩ := safeHeaders_eq hstored
  rw [if_pos hmime] at hheaders
  refine ⟨headers,?_⟩
  rw [download,haccess]
  simp only [bind,Except.bind,isFresh,Option.any_none,Bool.false_eq_true,if_false,hheaders,hstored.size]
  cases parseRange conversion (some header) data.length with
  | invalid => rfl
  | range start last =>
    dsimp only
    cases openStream adapter orgId d att.contentHash (some ⟨start.toNat,some last.toNat⟩) with
    | error e => rfl
    | ok stream => rfl
  | absent =>
    dsimp only
    cases openStream adapter orgId d att.contentHash none with
    | error e => rfl
    | ok stream => rfl

/-- A type that no header may have is met before the range is looked at. -/
theorem download_invalidChar (header : JsString) {access : Except Failure Unit} (haccess : forDownload access (some att) = .ok att)
    (hstored : Stored adapter orgId d att data) (hmime : ¬att.mime.all isHeaderUnit = true) :
    download conversion adapter orgId d access (some att) (some header) none = .error .invalidChar := by
  obtain ⟨headers,hheaders⟩ := safeHeaders_eq hstored
  rw [if_neg hmime] at hheaders
  rw [download,haccess]
  simp only [bind,Except.bind,isFresh,Option.any_none,Bool.false_eq_true,if_false,hheaders]

theorem decimalInt_natCast (k : Nat) : decimalInt k = decimal k := by
  rw [decimalInt,if_neg (by omega),Int.natAbs_natCast]

/-- A Range header is answered with the bytes it selects, between the ends that Content-Range
names and as many as Content-Length says, or refused without a body. -/
structure ExactAnswer (answer : Except Failure Response) (data : List UInt8) (header : JsString) : Prop where
  status : (∃ response, answer = .ok response ∧ response.status = 206) ↔
    ∃ spec : RangeSpec, spec.Spelled (trim header) ∧ spec.Answered data.length
  bytes : ∀ spec : RangeSpec, spec.Spelled (trim header) → spec.Answered data.length → ∃ response, answer = .ok response ∧
    response.body = slice data (spec.first data.length) (some (spec.last data.length)) ∧
    response.headers.contentRange = some (js "bytes " ++ decimal (spec.first data.length) ++ js "-" ++
      decimal (spec.last data.length) ++ js "/" ++ decimal data.length) ∧
    response.headers.contentLength = some (decimal response.body.length)
  refused : header ≠ [] → (¬∃ spec : RangeSpec, spec.Spelled (trim header) ∧ spec.Answered data.length) →
    ∃ response, answer = .ok response ∧ response.status = 416 ∧ response.body = []

variable {access : Except Failure Unit} (haccess : forDownload access (some att) = .ok att) (hstored : Stored adapter orgId d att data)
include haccess hstored

/-- The empty header is answered with the whole attachment. -/
theorem download_whole (hmime : att.mime.all isHeaderUnit = true) : ∃ response,
    download conversion adapter orgId d access (some att) (some []) none = .ok response ∧
    response.status = 200 ∧ response.body = data := by
  obtain ⟨headers,hdownload⟩ := download_eq conversion [] haccess hstored hmime
  have habsent : parseRange conversion (some []) data.length = .absent := rfl
  have hwhole : openStream adapter orgId d att.contentHash none = .ok data := by
    have hread : (adapter.getStream (objectKey orgId att.contentHash) none d).1 = .ok data := getStream_file hstored.file rfl
    rw [openStream,hread]
    rfl
  rw [habsent] at hdownload
  dsimp only at hdownload
  rw [hwhole] at hdownload
  exact ⟨_,hdownload,rfl,rfl⟩

theorem download_range (hmime : att.mime.all isHeaderUnit = true) (hne : header ≠ []) (hspelled : spec.Spelled (trim header))
    (hspec : spec.Answered data.length) :
    ∃ response, download conversion adapter orgId d access (some att) (some header) none = .ok response ∧
    response.status = 206 ∧ response.body = slice data (spec.first data.length) (some (spec.last data.length)) ∧
    response.headers.contentRange = some (js "bytes " ++ decimal (spec.first data.length) ++ js "-" ++
      decimal (spec.last data.length) ++ js "/" ++ decimal data.length) ∧
    response.headers.contentLength = some (decimal response.body.length) := by
  obtain ⟨headers,hdownload⟩ := download_eq conversion header haccess hstored hmime
  obtain ⟨hle,hlast⟩ := hspec.bounds
  have hopen : openStream adapter orgId d att.contentHash (some ⟨((spec.first data.length : Nat) : Int).toNat,
      some ((spec.last data.length : Nat) : Int).toNat⟩) =
      .ok (slice data (spec.first data.length) (some (spec.last data.length))) := by
    rw [Int.toNat_natCast,Int.toNat_natCast,openStream,getStream_file hstored.file (createReadStream_between hle)]
    rfl
  rw [(parseRange_spelled conversion hne (hstored.size ▸ att.safe) hspelled).1 hspec] at hdownload
  dsimp only at hdownload
  rw [hopen] at hdownload
  refine ⟨_,hdownload,rfl,rfl,?_,?_⟩
  · rw [decimalInt_natCast,decimalInt_natCast]
  · dsimp only
    rw [slice_length hle hlast,← decimalInt_natCast]
    exact congrArg (fun k => some (decimalInt k)) (by omega)

theorem download_unanswered (hmime : att.mime.all isHeaderUnit = true) (hne : header ≠ [])
    (hnone : ¬∃ spec : RangeSpec, spec.Spelled (trim header) ∧ spec.Answered data.length) :
    ∃ response, download conversion adapter orgId d access (some att) (some header) none = .ok response ∧
      response.status = 416 ∧ response.body = [] := by
  obtain ⟨headers,hdownload⟩ := download_eq conversion header haccess hstored hmime
  have hinvalid : parseRange conversion (some header) data.length = .invalid := by
    by_cases hspelled : ∃ spec : RangeSpec, spec.Spelled (trim header)
    · obtain ⟨spec,hspec⟩ := hspelled
      exact (parseRange_spelled conversion hne (hstored.size ▸ att.safe) hspec).2 fun h => hnone ⟨spec,hspec,h⟩
    · exact parseRange_unspelled conversion hne fun spec hspec => hspelled ⟨spec,hspec⟩
  rw [hinvalid] at hdownload
  exact ⟨_,hdownload,rfl,rfl⟩

/-- The answer to a header is exact if and only if the type of the attachment is one that a header may have. The empty header
asks for nothing. -/
theorem download_exact_iff (header : JsString) :
    ExactAnswer (download conversion adapter orgId d access (some att) (some header) none) data header ↔
      header = [] ∨ att.mime.all isHeaderUnit = true := by
  have hunspelled : header = [] → ∀ spec : RangeSpec, ¬spec.Spelled (trim header) := by
    rintro rfl spec hspec
    rw [spelled_iff] at hspec
    cases hspec
  by_cases hmime : att.mime.all isHeaderUnit = true
  · refine iff_of_true ?_ (.inr hmime)
    by_cases hempty : header = []
    · obtain ⟨response,hdownload,hstatus,-⟩ := download_whole conversion haccess hstored hmime
      refine ⟨iff_of_false ?_ ?_,fun spec hspec => absurd hspec (hunspelled hempty spec),fun hne => absurd hempty hne⟩
      · rintro ⟨response',hdownload',hstatus'⟩
        rw [hempty,hdownload] at hdownload'
        rw [← Except.ok.inj hdownload',hstatus] at hstatus'
        exact absurd hstatus' (by decide)
      · rintro ⟨spec,hspec,-⟩
        exact hunspelled hempty spec hspec
    by_cases hanswered : ∃ spec : RangeSpec, spec.Spelled (trim header) ∧ spec.Answered data.length
    · refine ⟨iff_of_true ?_ hanswered,fun spec hspelled hspec => ?_,fun _ hnone => absurd hanswered hnone⟩
      · obtain ⟨spec,hspelled,hspec⟩ := hanswered
        obtain ⟨response,hdownload,hstatus,-⟩ := download_range conversion haccess hstored hmime hempty hspelled hspec
        exact ⟨response,hdownload,hstatus⟩
      · obtain ⟨response,hdownload,-,hexact⟩ := download_range conversion haccess hstored hmime hempty hspelled hspec
        exact ⟨response,hdownload,hexact⟩
    · obtain ⟨response,hdownload,hstatus,hbody⟩ := download_unanswered conversion haccess hstored hmime hempty hanswered
      refine ⟨iff_of_false ?_ hanswered,fun spec hspelled hspec => absurd ⟨spec,hspelled,hspec⟩ hanswered,
        fun _ _ => ⟨response,hdownload,hstatus,hbody⟩⟩
      rintro ⟨response',hdownload',hstatus'⟩
      rw [hdownload] at hdownload'
      rw [← Except.ok.inj hdownload',hstatus] at hstatus'
      exact absurd hstatus' (by decide)
  · rw [download_invalidChar conversion header haccess hstored hmime]
    constructor
    · intro h
      refine .inl (by_contra fun hne => ?_)
      by_cases hanswered : ∃ spec : RangeSpec, spec.Spelled (trim header) ∧ spec.Answered data.length
      · obtain ⟨response,hresponse,-⟩ := h.status.mpr hanswered
        cases hresponse
      · obtain ⟨response,hresponse,-⟩ := h.refused hne hanswered
        cases hresponse
    · intro hempty
      have hnone := hunspelled (hempty.resolve_right hmime)
      refine ⟨iff_of_false ?_ ?_,fun spec hspec => absurd hspec (hnone spec),fun hne => absurd (hempty.resolve_right hmime) hne⟩
      · rintro ⟨response,hresponse,-⟩
        cases hresponse
      · rintro ⟨spec,hspec,-⟩
        exact hnone spec hspec

end Answers

/-- Numbers as they are where they are small. -/
def exactNumbers : NumberConversion where
  toNumber s := .finite (digitsValue s)
  exact _ _ _ := rfl
  monotone _ _ _ _ h := Number.le_finite.mpr (by omega)

def smallRow (mime : JsString) : AttachmentRow := ⟨js "a",mime,3,js "a",.clean,by decide,by decide⟩
def smallAdapter : Storage.Local.LocalAdapter := ⟨js "/",by decide,js "d",fun _ => [],4096⟩
def smallDisk : FileSystem.Disk :=
  ⟨[⟨[[100]],none⟩,⟨[[100],[111,114,103]],none⟩,⟨[[100],[111,114,103],[111]],none⟩,
    ⟨[[100],[111,114,103],[111],utf8Bytes (js "attachments")],none⟩,
    ⟨[[100],[111,114,103],[111],utf8Bytes (js "attachments"),[97]],some [10,20,30]⟩],by decide +kernel⟩

private theorem small_stored (mime : JsString) : Stored smallAdapter (js "o") smallDisk (smallRow mime) [10,20,30] :=
  ⟨(by decide +kernel : (fsStat (smallAdapter.path (objectKey (js "o") (js "a"))) smallDisk).1 = .ok (some [10,20,30])),rfl,
    (by decide +kernel : (encodeURIComponent (js "a")).isSome = true)⟩

theorem download_exact_tail :
    ExactAnswer (download exactNumbers smallAdapter (js "o") smallDisk (.ok ()) (some (smallRow (js "text/plain")))
    (some (js "bytes=-2")) none)
      [10,20,30] (js "bytes=-2") :=
  (download_exact_iff exactNumbers rfl (small_stored _) (js "bytes=-2")).mpr (.inr (by decide))

/-- A type with a line break is stored as it is sent, and no answer can have it. -/
theorem mime_fails_download : ¬∀ (att : AttachmentRow) (data : List UInt8) (header : JsString),
    Stored smallAdapter (js "o") smallDisk att data →
      ExactAnswer (download exactNumbers smallAdapter (js "o") smallDisk (.ok ()) (some att) (some header) none) data header := by
  intro h
  have hspelled : (RangeSpec.ending 2).Spelled (trim (js "bytes=-2")) := ⟨js "2",⟨by decide,by decide⟩,by decide,by decide⟩
  have hspec : (RangeSpec.ending 2).Answered 3 := RangeSpec.answered_ending.mpr (by decide)
  obtain ⟨response,hresponse,-⟩ := (h (smallRow (js "text/plain\n")) [10,20,30] (js "bytes=-2") (small_stored _)).bytes _ hspelled hspec
  rw [download_invalidChar exactNumbers (js "bytes=-2") rfl (small_stored _) (by decide)] at hresponse
  cases hresponse

end JustMail.Downloads
