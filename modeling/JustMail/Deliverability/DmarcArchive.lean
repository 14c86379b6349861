import JustMail.Foundation.Utf8Decoder
import Mathlib.Algebra.GroupWithZero.Nat

/-! DMARC reports as they arrive (`dmarc-parse.ts`): the archive of a single file is
read from its local header alone. -/
namespace JustMail.Deliverability.DmarcArchive
open Foundation

abbrev Bytes := List UInt8

/-- `buf.readUInt16LE(offset)`, which throws behind the end. -/
def readUInt16LE (buf : Bytes) (offset : Nat) : Option Nat := do
  let a ← buf[offset]?
  let b ← buf[offset+1]?
  some (a.toNat + 256 * b.toNat)

/-- `buf.readUInt32LE(offset)`. -/
def readUInt32LE (buf : Bytes) (offset : Nat) : Option Nat := do
  let lo ← readUInt16LE buf offset
  let hi ← readUInt16LE buf (offset+2)
  some (lo + 65536 * hi)

section Reader
variable (gunzip inflateRaw : Bytes → Option Bytes)

/-- `unzipSingle`. There is nothing where it throws. -/
def unzipSingle (buf : Bytes) : Option JsString := do
  let method ← readUInt16LE buf 8
  let compressedSize ← readUInt32LE buf 18
  let nameLen ← readUInt16LE buf 26
  let extraLen ← readUInt16LE buf 28
  let dataStart := 30 + nameLen + extraLen
  let data := if compressedSize > 0 then (buf.drop dataStart).take compressedSize else buf.drop dataStart
  if method = 0 then some (decodeLossy data)
  else if method = 8 then (inflateRaw data).map decodeLossy
  else none

def decompressReport (input : Bytes) : Option JsString :=
  if [0x1f,0x8b].isPrefixOf input then (gunzip input).map decodeLossy
  else if [0x50,0x4b,0x03,0x04].isPrefixOf input then unzipSingle inflateRaw input
  else some (decodeLossy input)

def le16 (n : Nat) : Bytes := [(n % 256).toUInt8,(n / 256 % 256).toUInt8]
def le32 (n : Nat) : Bytes := le16 n ++ le16 (n / 65536)

inductive Method
  | stored
  | deflated

/-- Where the sizes stand: in the local header, or behind the data with bit 3 set, with
or without the descriptor's signature. -/
inductive Sizes
  | header
  | descriptor (signed : Bool)

/-- An archive of one file. The format keeps names and extra fields below 2^16 bytes and
the sizes below 2^32. -/
structure Archive where
  content : Bytes
  method : Method
  /-- The content as the archive holds it. -/
  data : Bytes
  sizes : Sizes
  version : Nat
  flags : Nat
  time : Nat
  date : Nat
  crc : Nat
  name : Bytes
  extra : Bytes
  madeBy : Nat
  attributes : Nat
  centralExtra : Bytes
  comment : Bytes
  name_fits : name.length < 2^16
  extra_fits : extra.length < 2^16
  data_fits : data.length < 2^32

namespace Archive
variable (a : Archive)

def methodCode : Nat :=
  match a.method with
  | .stored => 0
  | .deflated => 8

/-- Bit 3 says that a descriptor follows the data. -/
def generalFlags : Nat :=
  match a.sizes with
  | .header => a.flags &&& 0xFFF7
  | .descriptor _ => a.flags ||| 8

/-- A field of the local header that the descriptor gives instead. -/
def inHeader (n : Nat) : Nat :=
  match a.sizes with
  | .header => n
  | .descriptor _ => 0

def localHeader : Bytes :=
  [0x50,0x4b,0x03,0x04] ++ le16 a.version ++ le16 a.generalFlags ++ le16 a.methodCode ++ le16 a.time ++ le16 a.date ++
    le32 (a.inHeader a.crc) ++ le32 (a.inHeader a.data.length) ++ le32 (a.inHeader a.content.length) ++
    le16 a.name.length ++ le16 a.extra.length

def dataDescriptor : Bytes :=
  match a.sizes with
  | .header => []
  | .descriptor signed =>
    (if signed then [0x50,0x4b,0x07,0x08] else []) ++ le32 a.crc ++ le32 a.data.length ++ le32 a.content.length

def centralDirectory : Bytes :=
  [0x50,0x4b,0x01,0x02] ++ le16 a.madeBy ++ le16 a.version ++ le16 a.generalFlags ++ le16 a.methodCode ++ le16 a.time ++
    le16 a.date ++ le32 a.crc ++ le32 a.data.length ++ le32 a.content.length ++ le16 a.name.length ++
    le16 a.centralExtra.length ++ le16 0 ++ le16 0 ++ le16 0 ++ le32 a.attributes ++ le32 0 ++ a.name ++ a.centralExtra

def endRecord : Bytes :=
  [0x50,0x4b,0x05,0x06] ++ le16 0 ++ le16 0 ++ le16 1 ++ le16 1 ++ le32 a.centralDirectory.length ++
    le32 (a.localHeader ++ a.name ++ a.extra ++ a.data ++ a.dataDescriptor).length ++ le16 a.comment.length ++ a.comment

/-- What stands behind the data. -/
def trailer : Bytes := a.dataDescriptor ++ a.centralDirectory ++ a.endRecord

def bytes : Bytes := a.localHeader ++ (a.name ++ a.extra ++ (a.data ++ a.trailer))

/-- The data is the content as the method writes it. -/
def Holds (Deflates : Bytes → Bytes → Prop) : Prop :=
  match a.method with
  | .stored => a.data = a.content
  | .deflated => Deflates a.content a.data

end Archive
end Reader

section Headers
variable (a : Archive) {before after : Bytes} {n offset : Nat}

theorem readUInt16LE_at (ho : offset = before.length) :
    readUInt16LE (before ++ (le16 n ++ after)) offset = some (n % 65536) := by
  have hlo : (before ++ (le16 n ++ after))[offset]? = some (n % 256).toUInt8 := by
    rw [List.getElem?_append_right (by omega),ho,Nat.sub_self]
    rfl
  have hhi : (before ++ (le16 n ++ after))[offset+1]? = some (n / 256 % 256).toUInt8 := by
    rw [List.getElem?_append_right (by omega),ho,Nat.add_sub_cancel_left]
    rfl
  rw [readUInt16LE,hlo,hhi]
  simp only [Option.bind_eq_bind,Option.bind_some,Option.some.injEq,UInt8.toNat_ofNat',Nat.toUInt8]
  omega

theorem readUInt32LE_at (hn : n < 2^32) (ho : offset = before.length) :
    readUInt32LE (before ++ (le32 n ++ after)) offset = some n := by
  have hlo : readUInt16LE (before ++ (le32 n ++ after)) offset = some (n % 65536) := by
    rw [le32,List.append_assoc]
    exact readUInt16LE_at ho
  have hhi : readUInt16LE (before ++ (le32 n ++ after)) (offset+2) = some (n / 65536 % 65536) := by
    have hassoc : before ++ (le32 n ++ after) = (before ++ le16 n) ++ (le16 (n / 65536) ++ after) := by
      simp only [le32,List.append_assoc]
    rw [hassoc]
    exact readUInt16LE_at (by rw [List.length_append,ho]; rfl)
  rw [readUInt32LE,hlo,hhi]
  simp only [Option.bind_eq_bind,Option.bind_some,Option.some.injEq]
  omega

theorem header_fields : readUInt16LE a.bytes 8 = some a.methodCode ∧
    readUInt32LE a.bytes 18 = some (a.inHeader a.data.length) ∧
    readUInt16LE a.bytes 26 = some a.name.length ∧ readUInt16LE a.bytes 28 = some a.extra.length := by
  have hmethod : a.methodCode % 65536 = a.methodCode := by
    rw [Archive.methodCode]
    cases a.method <;> rfl
  have hsize : a.inHeader a.data.length < 2^32 := by
    rw [Archive.inHeader]
    cases a.sizes with
    | header => exact a.data_fits
    | descriptor signed => exact Nat.two_pow_pos 32
  have hname : a.name.length % 65536 = a.name.length := Nat.mod_eq_of_lt a.name_fits
  have hextra : a.extra.length % 65536 = a.extra.length := Nat.mod_eq_of_lt a.extra_fits
  simp only [Archive.bytes,Archive.localHeader,List.append_assoc]
  refine ⟨?_,?_,?_,?_⟩
  · rw [← List.append_assoc,← List.append_assoc]
    exact (readUInt16LE_at rfl).trans (congrArg some hmethod)
  · iterate 6 rw [← List.append_assoc]
    exact readUInt32LE_at hsize rfl
  · iterate 8 rw [← List.append_assoc]
    exact (readUInt16LE_at rfl).trans (congrArg some hname)
  · iterate 9 rw [← List.append_assoc]
    exact (readUInt16LE_at rfl).trans (congrArg some hextra)

/-- The bytes that are taken for the data: all the rest where the header gives no size. -/
def Archive.dataRead : Bytes := if a.inHeader a.data.length > 0 then a.data else a.data ++ a.trailer

theorem unzipSingle_bytes (inflateRaw : Bytes → Option Bytes) : unzipSingle inflateRaw a.bytes =
    match a.method with
    | .stored => some (decodeLossy a.dataRead)
    | .deflated => (inflateRaw a.dataRead).map decodeLossy := by
  obtain ⟨hmethod,hsize,hname,hextra⟩ := header_fields a
  have hrest : a.bytes.drop (30 + a.name.length + a.extra.length) = a.data ++ a.trailer := by
    rw [Archive.bytes,← List.append_assoc]
    refine List.drop_left' ?_
    rw [List.length_append,List.length_append,Nat.add_assoc]
    rfl
  have hdata : (if a.inHeader a.data.length > 0 then (a.data ++ a.trailer).take (a.inHeader a.data.length)
      else a.data ++ a.trailer) = a.dataRead := by
    rw [Archive.dataRead]
    split
    · rename_i hpos
      rw [Archive.inHeader] at hpos ⊢
      cases hsizes : a.sizes with
      | header => exact List.take_left
      | descriptor signed => simp [hsizes] at hpos
    · rfl
  rw [unzipSingle,hmethod,hsize,hname,hextra]
  simp only [Option.bind_eq_bind,Option.bind_some,hrest,hdata,Archive.methodCode]
  cases a.method <;> rfl

theorem decompressReport_bytes (gunzip inflateRaw : Bytes → Option Bytes) :
    decompressReport gunzip inflateRaw a.bytes = unzipSingle inflateRaw a.bytes := by
  have hsignature : a.bytes = [0x50,0x4b,0x03,0x04] ++ (a.bytes.drop 4) := rfl
  rw [decompressReport,hsignature]
  simp only [List.cons_append,List.isPrefixOf_cons_cons]
  rfl

end Headers

section Reports
variable {Deflates : Bytes → Bytes → Prop} {gunzip inflateRaw : Bytes → Option Bytes} {a : Archive}

/-- The central directory starts with a letter. -/
private theorem trailer_ascii (a : Archive) : ∃ rest, a.trailer = a.dataDescriptor ++ 0x50 :: rest := by
  -- the equation lemma of the directory, a long chain of appends, is slow to generate
  delta Archive.trailer Archive.centralDirectory
  simp only [List.append_assoc,List.cons_append]
  exact ⟨_,rfl⟩

/-- A stored report is read past its end unless the header gives a size. -/
theorem dataRead_stored_iff (hdata : a.data = a.content) :
    decodeLossy a.dataRead = decodeLossy a.content ↔ a.sizes = .header ∧ a.content ≠ [] := by
  obtain ⟨rest,hrest⟩ := trailer_ascii a
  rw [Archive.dataRead,Archive.inHeader,hdata,hrest]
  cases hsizes : a.sizes with
  | header =>
    by_cases hempty : a.content = []
    · refine iff_of_false ?_ fun h => h.2 hempty
      have hsize : ¬a.content.length > 0 := by
        rw [hempty]
        exact Nat.lt_irrefl 0
      rw [if_neg hsize]
      exact decodeLossy_ne_append (by decide) a.content a.dataDescriptor rest
    · rw [if_pos (List.length_pos_of_ne_nil hempty)]
      exact iff_of_true rfl ⟨rfl,hempty⟩
  | descriptor signed =>
    refine iff_of_false ?_ fun h => by cases h.1
    rw [if_neg (Nat.lt_irrefl 0)]
    exact decodeLossy_ne_append (by decide) a.content a.dataDescriptor rest

/-- A deflated report ends where its stream ends, whatever is read behind it. -/
theorem dataRead_deflated (hinflate : ∀ x c rest, Deflates x c → inflateRaw (c ++ rest) = some x)
    (hdata : Deflates a.content a.data) : inflateRaw a.dataRead = some a.content := by
  rw [Archive.dataRead]
  split
  · have hexact := hinflate a.content a.data [] hdata
    rwa [List.append_nil] at hexact
  · exact hinflate a.content a.data a.trailer hdata

/-- Which archives decode to their report. -/
theorem decompressReport_iff (gunzip : Bytes → Option Bytes)
    (hinflate : ∀ x c rest, Deflates x c → inflateRaw (c ++ rest) = some x) (a : Archive) (ha : a.Holds Deflates) :
    decompressReport gunzip inflateRaw a.bytes = some (decodeLossy a.content) ↔
      a.method = .deflated ∨ a.sizes = .header ∧ a.content ≠ [] := by
  rw [decompressReport_bytes,unzipSingle_bytes]
  rw [Archive.Holds] at ha
  cases hmethod : a.method with
  | stored =>
    simp only [hmethod] at ha
    simp only [Option.some.injEq,reduceCtorEq,false_or]
    exact dataRead_stored_iff ha
  | deflated =>
    simp only [hmethod] at ha
    refine iff_of_true ?_ (.inl rfl)
    simp only [dataRead_deflated hinflate ha,Option.map_some]

def inflateStored (buf : Bytes) : Option Bytes :=
  if buf.head? = some 1 then (readUInt16LE buf 1).map (buf.drop 5).take else none

def StoredBlock (x c : Bytes) : Prop := x.length < 2^16 ∧ c = [1] ++ (le16 x.length ++ (le16 (65535 - x.length) ++ x))

theorem inflateStored_block (x c rest : Bytes) (h : StoredBlock x c) : inflateStored (c ++ rest) = some x := by
  obtain ⟨hlen,rfl⟩ := h
  have hread : readUInt16LE ([1] ++ (le16 x.length ++ (le16 (65535 - x.length) ++ x)) ++ rest) 1 = some x.length := by
    rw [List.append_assoc,List.append_assoc]
    exact (readUInt16LE_at rfl).trans (congrArg some (Nat.mod_eq_of_lt hlen))
  rw [inflateStored,hread]
  exact (if_pos rfl).trans (congrArg some List.take_left)

/-- A report by name, with its sizes where `sizes` says. -/
def sampleArchive (content : Bytes) (method : Method) (data : Bytes) (hdata : data.length < 2^32) (sizes : Sizes) : Archive :=
  { content := content, method := method, data := data, sizes := sizes, version := 20, flags := 0, time := 0, date := 0,
    crc := 0, name := [0x72], extra := [], madeBy := 20, attributes := 0, centralExtra := [], comment := [],
    name_fits := by decide, extra_fits := by decide, data_fits := hdata }

/-- A report in a single letter, stored, with its sizes behind it. -/
def streamedArchive : Archive := sampleArchive [0x61] .stored [0x61] (by decide) (.descriptor true)

theorem streamed_overread :
    decompressReport (fun _ => none) inflateStored streamedArchive.bytes ≠ some (decodeLossy streamedArchive.content) := by
  decide +kernel

theorem decompressReport_iff_streamed :
    (decompressReport (fun _ => none) inflateStored streamedArchive.bytes = some (decodeLossy streamedArchive.content) ↔
      streamedArchive.method = .deflated ∨ streamedArchive.sizes = .header ∧ streamedArchive.content ≠ []) ∧
    decompressReport (fun _ => none) inflateStored (sampleArchive [0x61] .deflated [1,1,0,0xfe,0xff,0x61] (by decide)
      (.descriptor true)).bytes = some (decodeLossy [0x61]) :=
  ⟨decompressReport_iff (fun _ => none) inflateStored_block streamedArchive rfl,
    (decompressReport_iff (fun _ => none) inflateStored_block (sampleArchive _ .deflated _ _ _)
      ⟨by decide,by decide⟩).mpr (.inl rfl)⟩

end Reports
end JustMail.Deliverability.DmarcArchive
