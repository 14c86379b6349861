import JustMail.Foundation.Decimal
import JustMail.Foundation.Sequences
import JustMail.Storage.Migrate

/-! `getStream` of the four adapters. What each backend does with a range is taken from its
documentation; the adapters translate one `Range` into four conventions. -/
namespace JustMail.Storage
open Foundation

inductive StorageError where
  | objectNotFound (key : JsString)
  | backend
  deriving DecidableEq

/-- `start` and `end` of the source, both included. -/
structure Range where
  start : Nat
  last : Option Nat

/-- `createReadStream` of node with its options `start` and `end`. -/
def createReadStream (data : Bytes) (start last : Option Nat) : Except StorageError Bytes :=
  if last.any (· < start.getD 0) then .error .backend else .ok (slice data (start.getD 0) last)

/-- The answer to `GetObjectCommand`: the object, or the part of it that a satisfiable
Range header names. -/
structure S3Client where
  getObject : Bucket → JsString → Option JsString → Except StorageError Bytes
  noSuchKey : ∀ bucket key header, bucket.lookup key = none → getObject bucket key header = .error (.objectNotFound key)
  whole : ∀ bucket key o, bucket.lookup key = some o → getObject bucket key none = .ok o.body
  ranged : ∀ bucket key o header first last, bucket.lookup key = some o → parseByteRange header = some (first,last) →
    first < o.size → (∀ l ∈ last, first ≤ l) → getObject bucket key (some header) = .ok (slice o.body first last)

/-- `createReadStream` of a file in Google Cloud Storage: both positions are included, and
the start and the end of the file are their defaults. -/
structure GcsClient where
  createReadStream : Bytes → Option Nat → Option Nat → Except StorageError Bytes
  ranged : ∀ data start last, start.getD 0 < data.length → (∀ l ∈ last, start.getD 0 ≤ l) →
    createReadStream data start last = .ok (slice data (start.getD 0) last)

/-- `download(offset, count)` of a block blob: to the end without a count, which zero
stands for as well; a negative count is a RangeError. -/
structure AzureClient where
  download : Bytes → Nat → Option Int → Except StorageError Bytes
  toEnd : ∀ data offset, offset < data.length → download data offset none = .ok (data.drop offset)
  zero : ∀ data offset, download data offset (some 0) = download data offset none
  counted : ∀ data offset (count : Nat), offset < data.length → 0 < count →
    download data offset (some count) = .ok ((data.drop offset).take count)
  rangeError : ∀ data offset count, count < 0 → download data offset (some count) = .error .backend

structure Backends where
  s3 : S3Client
  gcs : GcsClient
  azure : AzureClient

def LocalAdapter.getStream (root : Bucket) (key : JsString) (range : Option Range) : Except StorageError Bytes :=
  match root.lookup key with
  | none => .error (.objectNotFound key)
  | some o => createReadStream o.body (range.map (·.start)) (range.bind (·.last))

def rangeHeader (range : Range) : JsString :=
  js "bytes=" ++ decimal range.start ++ js "-" ++ (range.last.map decimal).getD []

def S3Adapter.getStream (client : S3Client) (bucket : Bucket) (key : JsString) (range : Option Range) : Except StorageError Bytes :=
  client.getObject bucket key (range.map rangeHeader)

def GcsAdapter.getStream (client : GcsClient) (bucket : Bucket) (key : JsString) (range : Option Range) : Except StorageError Bytes :=
  match bucket.lookup key with
  | none => .error (.objectNotFound key)
  | some o => client.createReadStream o.body (range.map (·.start)) (range.bind (·.last))

/-- `(range.end ?? 0) - (range.start ?? 0) + 1`. -/
def azureCount (range : Range) : Int := ((range.last.getD 0 : Nat) : Int) - range.start + 1

def AzureAdapter.getStream (client : AzureClient) (container : Bucket) (key : JsString) (range : Option Range) :
    Except StorageError Bytes :=
  match container.lookup key with
  | none => .error (.objectNotFound key)
  | some o => client.download o.body ((range.map (·.start)).getD 0) (range.map azureCount)

section Agreement
variable {bucket : Bucket} {o : StorageObject} {range : Range}

/-- The bytes from `start` to `end`, or to the last one of the object. -/
def rangeBytes (o : StorageObject) (range : Range) : Bytes :=
  slice o.body range.start (some (min (range.last.getD (o.size - 1)) (o.size - 1)))

theorem rangeBytes_eq (hstart : range.start < o.size) : rangeBytes o range = slice o.body range.start range.last :=
  (slice_min hstart range.last).symm

theorem local_ranged (ho : o ∈ bucket.rows) (hstart : range.start < o.size) (hlast : ∀ last ∈ range.last, range.start ≤ last) :
    LocalAdapter.getStream bucket o.key (some range) = .ok (rangeBytes o range) := by
  rw [LocalAdapter.getStream,Table.lookup_of_mem ho,rangeBytes_eq hstart]
  have hvalid : range.last.any (· < range.start) = false := by
    cases h : range.last with
    | none => rfl
    | some last => simpa using hlast last h
  simp [createReadStream,hvalid]

theorem s3_ranged (client : S3Client) (ho : o ∈ bucket.rows) (hstart : range.start < o.size)
    (hlast : ∀ last ∈ range.last, range.start ≤ last) :
    S3Adapter.getStream client bucket o.key (some range) = .ok (rangeBytes o range) := by
  rw [rangeBytes_eq hstart]
  exact client.ranged bucket o.key o _ _ _ (Table.lookup_of_mem ho) (parseByteRange_decimal range.start range.last) hstart hlast

theorem gcs_ranged (client : GcsClient) (ho : o ∈ bucket.rows) (hstart : range.start < o.size)
    (hlast : ∀ last ∈ range.last, range.start ≤ last) :
    GcsAdapter.getStream client bucket o.key (some range) = .ok (rangeBytes o range) := by
  rw [GcsAdapter.getStream,Table.lookup_of_mem ho,rangeBytes_eq hstart]
  exact client.ranged o.body (some range.start) range.last hstart hlast

theorem azure_getStream (client : AzureClient) (ho : o ∈ bucket.rows) :
    AzureAdapter.getStream client bucket o.key (some range) = client.download o.body range.start (some (azureCount range)) := by
  rw [AzureAdapter.getStream,Table.lookup_of_mem ho]
  rfl

/-- Without an end the count is `1 - start`: one byte from the start of the object, the
rest of it from its second byte on, and an error further on. -/
theorem azure_open_range (client : AzureClient) {start : Nat} (hstart : start < o.size) :
    client.download o.body start (some (azureCount ⟨start,none⟩)) = .ok (o.body.drop start) ↔
      start = 1 ∨ (start = 0 ∧ o.size = 1) := by
  match start with
  | 0 =>
    have hone : client.download o.body 0 (some (azureCount ⟨0,none⟩)) = .ok ((o.body.drop 0).take 1) :=
      client.counted o.body 0 1 hstart Nat.one_pos
    rw [hone,Except.ok.injEq,List.take_eq_self_iff,List.drop_zero,← StorageObject.size]
    omega
  | 1 =>
    have hall : client.download o.body 1 (some (azureCount ⟨1,none⟩)) = .ok (o.body.drop 1) :=
      (client.zero o.body 1).trans (client.toEnd o.body 1 hstart)
    simp [hall]
  | start+2 =>
    have hnegative : azureCount ⟨start+2,none⟩ < 0 := by
      simp only [azureCount,Option.getD_none]
      omega
    rw [client.rangeError _ _ _ hnegative]
    simp

theorem azure_ranged (client : AzureClient) (ho : o ∈ bucket.rows) (hstart : range.start < o.size)
    (hlast : ∀ last ∈ range.last, range.start ≤ last) :
    AzureAdapter.getStream client bucket o.key (some range) = .ok (rangeBytes o range) ↔
      range.last.isSome = true ∨ range.start = 1 ∨ (range.start = 0 ∧ o.size = 1) := by
  rw [azure_getStream client ho,rangeBytes_eq hstart]
  obtain ⟨start,_ | last⟩ := range
  · rw [slice,azure_open_range client hstart]
    simp
  · have hle : start ≤ last := hlast last rfl
    have hcount : azureCount ⟨start,some last⟩ = ((last + 1 - start : Nat) : Int) := by
      simp only [azureCount,Option.getD_some]
      omega
    rw [hcount,client.counted o.body start _ hstart (by omega)]
    simp [slice]

/-- The four adapters return the bytes of the range exactly when it has an end, or starts
at the second byte, or is the one byte of the object. -/
theorem ranged_reads_agree (backends : Backends) (ho : o ∈ bucket.rows) (hstart : range.start < o.size)
    (hlast : ∀ last ∈ range.last, range.start ≤ last) :
    (LocalAdapter.getStream bucket o.key (some range) = .ok (rangeBytes o range) ∧
      S3Adapter.getStream backends.s3 bucket o.key (some range) = .ok (rangeBytes o range) ∧
      GcsAdapter.getStream backends.gcs bucket o.key (some range) = .ok (rangeBytes o range) ∧
      AzureAdapter.getStream backends.azure bucket o.key (some range) = .ok (rangeBytes o range)) ↔
    range.last.isSome = true ∨ range.start = 1 ∨ (range.start = 0 ∧ o.size = 1) := by
  rw [← azure_ranged backends.azure ho hstart hlast]
  constructor
  · rintro ⟨-,-,-,h⟩
    exact h
  · intro h
    exact ⟨local_ranged ho hstart hlast,s3_ranged backends.s3 ho hstart hlast,gcs_ranged backends.gcs ho hstart hlast,h⟩

/-- Clients that do what the documentation says and fail otherwise. -/
def documentedS3 : S3Client where
  getObject bucket key header :=
    match bucket.lookup key with
    | none => .error (.objectNotFound key)
    | some o =>
      match header with
      | none => .ok o.body
      | some header =>
        match parseByteRange header with
        | some (first,last) => if first < o.size ∧ ∀ l ∈ last, first ≤ l then .ok (slice o.body first last) else .error .backend
        | none => .ok o.body
  noSuchKey bucket key header h := by simp [h]
  whole bucket key o h := by simp [h]
  ranged bucket key o header first last h hparse hfirst hlast := by
    simp only [h,hparse]
    exact if_pos ⟨hfirst,hlast⟩

def documentedGcs : GcsClient where
  createReadStream data start last :=
    if start.getD 0 < data.length ∧ ∀ l ∈ last, start.getD 0 ≤ l then .ok (slice data (start.getD 0) last) else .error .backend
  ranged _ _ _ hstart hlast := if_pos ⟨hstart,hlast⟩

def documentedAzure : AzureClient where
  download data offset count :=
    if count.any (· < 0) then .error .backend
    else if data.length ≤ offset then .error .backend
    else if count.getD 0 = 0 then .ok (data.drop offset)
    else .ok ((data.drop offset).take (count.getD 0).toNat)
  toEnd data offset h := by simp [h]
  zero data offset := by simp
  counted data offset count h hcount := by
    have hneg : ¬((count : Int) < 0) := by omega
    simp [Nat.not_le.mpr h,hneg,Nat.ne_of_gt hcount]
  rangeError data offset count h := by simp [h]

def documented : Backends := ⟨documentedS3,documentedGcs,documentedAzure⟩

def someBytes : StorageObject := ⟨js "k",[10,20,30],none,none⟩
def threeBytes : Bucket := ⟨[someBytes],List.nodup_singleton _⟩
def tailRange : Range := ⟨1,some 7⟩

theorem ranged_reads_agree_tail : AzureAdapter.getStream documentedAzure threeBytes (js "k") (some tailRange) = .ok [20,30] ∧
    LocalAdapter.getStream threeBytes (js "k") (some tailRange) = .ok [20,30] := by
  have ho : someBytes ∈ threeBytes.rows := List.mem_cons_self
  have hstart : tailRange.start < someBytes.size := by decide
  have hlast : ∀ last ∈ tailRange.last, tailRange.start ≤ last := by decide
  obtain ⟨hlocal,-,-,hazure⟩ := (ranged_reads_agree documented ho hstart hlast).mpr (.inl rfl)
  exact ⟨hazure,hlocal⟩

/-- Without an end Azure gives the first byte only. -/
theorem azure_open_range_short : LocalAdapter.getStream threeBytes (js "k") (some ⟨0,none⟩) = .ok [10,20,30] ∧
    AzureAdapter.getStream documentedAzure threeBytes (js "k") (some ⟨0,none⟩) = .ok [10] := by
  constructor
  · rfl
  · rfl

end Agreement
end JustMail.Storage
