import JustMail.Foundation.MimeStructure

/-! MIME entities as trees and how they are written down (RFC 2046): line by line, each
body part of a multipart after a delimiter, and the last one before the close delimiter. -/
namespace JustMail.Foundation.Mime

/-- An octet that is neither half of a line break. -/
def isLineOctet (c : CodeUnit) : Bool := c < 256 && c != 13 && c != 10

structure Line where
  text : JsString
  octets : ∀ c ∈ text, isLineOctet c = true

def Line.append (a b : Line) : Line := ⟨a.text ++ b.text,List.forall_mem_append.mpr ⟨a.octets,b.octets⟩⟩

instance : Append Line := ⟨Line.append⟩

@[simp] theorem Line.text_append (a b : Line) : (a ++ b).text = a.text ++ b.text := rfl

def Line.empty : Line := ⟨[],by simp⟩
def Line.dashes : Line := ⟨js "--",by decide⟩
def Line.semicolon : Line := ⟨js ";",by decide⟩
def Line.quote : Line := ⟨[unit '"'],by decide⟩

def isLetterOrDigit (c : CodeUnit) : Bool := (48 ≤ c && c ≤ 57) || (65 ≤ c && c ≤ 90) || (97 ≤ c && c ≤ 122)

/-- A boundary that needs no quotes. -/
structure PlainBoundary where
  text : JsString
  nonempty : text ≠ []
  plain : ∀ c ∈ text, isLetterOrDigit c = true

theorem plain_unit {c : CodeUnit} (h : isLetterOrDigit c = true) :
    isLineOctet c = true ∧ isBlank c = false ∧ isSpace c = false ∧ c ≠ unit '-' ∧ c ≠ unit '"' ∧ c ≠ unit ';' := by
  have hvalues : unit ' ' = 32 ∧ unit '-' = 45 ∧ unit '"' = 34 ∧ unit ';' = 59 := by decide
  obtain ⟨hblank,hdash,hquote,hsemicolon⟩ := hvalues
  simp only [isLetterOrDigit,isLineOctet,isBlank,isSpace,hblank,hdash,hquote,hsemicolon,Bool.or_eq_true,Bool.and_eq_true,
    Bool.or_eq_false_iff,Bool.and_eq_false_iff,decide_eq_true_eq,decide_eq_false_iff_not,bne_iff_ne,beq_eq_false_iff_ne,
    ne_eq,UInt16.le_iff_toNat_le,UInt16.lt_iff_toNat_lt,← UInt16.toNat_inj,UInt16.reduceToNat] at h ⊢
  omega

theorem PlainBoundary.octets (b : PlainBoundary) : ∀ c ∈ b.text, isLineOctet c = true := fun c hc => (plain_unit (b.plain c hc)).1

def PlainBoundary.line (b : PlainBoundary) : Line := ⟨b.text,b.octets⟩

def PlainBoundary.toBoundary (b : PlainBoundary) : Boundary where
  text := b.text
  nonempty := b.nonempty
  trimmed := by
    rw [List.rdropWhile_eq_self_iff]
    intro hne
    simp [(plain_unit (b.plain _ (List.getLast_mem hne))).2.1]

/-- The line before a body part. -/
def PlainBoundary.delimiter (b : PlainBoundary) : Line := .dashes ++ b.line

/-- The line after the last body part. -/
def PlainBoundary.closeDelimiter (b : PlainBoundary) : Line := b.delimiter ++ .dashes

/-- The field that makes an entity a multipart: its subtype, with the parameters before the
boundary, and perhaps further parameters. -/
structure MultipartType where
  subtype : Line
  boundary : PlainBoundary
  further : Option Line
  folded : Bool
  quoted : Bool

def MultipartType.opening (t : MultipartType) : Line := ⟨js "Content-Type: multipart/",by decide⟩ ++ t.subtype ++ .semicolon

def MultipartType.value (t : MultipartType) : Line := if t.quoted then .quote ++ t.boundary.line ++ .quote else t.boundary.line

/-- The parameters after the boundary. -/
def MultipartType.rest (t : MultipartType) : Line := (t.further.map (Line.semicolon ++ ·)).getD .empty

def MultipartType.closing (t : MultipartType) : Line := ⟨js " boundary=",by decide⟩ ++ t.value ++ t.rest

def MultipartType.lines (t : MultipartType) : List Line := if t.folded then [t.opening,t.closing] else [t.opening ++ t.closing]

mutual

/-- A leaf, an encapsulated message, or a multipart; `fields` and `more` are the other
lines of its header. -/
inductive Entity where
  | leaf (fields body : List Line)
  | message (fields : List Line) (inner : Entity)
  | multipart (fields : List Line) (type : MultipartType) (more preamble : List Line) (parts : Parts) (epilogue : List Line)

/-- The body parts of a multipart. There is at least one. -/
inductive Parts where
  | last (e : Entity)
  | more (e : Entity) (rest : Parts)

end

mutual

def Entity.lines : Entity → List Line
  | .leaf fields body => fields ++ .empty :: body
  | .message fields inner => fields ++ .empty :: inner.lines
  | .multipart fields type more preamble parts epilogue =>
    fields ++ type.lines ++ more ++ .empty :: preamble ++ parts.lines type.boundary ++
    type.boundary.closeDelimiter :: epilogue

def Parts.lines (boundary : PlainBoundary) : Parts → List Line
  | .last e => boundary.delimiter :: e.lines
  | .more e rest => boundary.delimiter :: (e.lines ++ rest.lines boundary)

end

mutual

/-- The lines that are no delimiters. -/
def Entity.content : Entity → List Line
  | .leaf fields body => fields ++ .empty :: body
  | .message fields inner => fields ++ .empty :: inner.content
  | .multipart fields type more preamble parts epilogue =>
    fields ++ type.lines ++ more ++ .empty :: preamble ++ parts.content ++ epilogue

def Parts.content : Parts → List Line
  | .last e => e.content
  | .more e rest => e.content ++ rest.content

end

mutual

/-- How deep multiparts are nested. -/
def Entity.depth : Entity → Nat
  | .leaf .. => 0
  | .message _ inner => inner.depth
  | .multipart _ _ _ _ parts _ => parts.depth + 1

def Parts.depth : Parts → Nat
  | .last e => e.depth
  | .more e rest => max e.depth rest.depth

end

mutual

def Entity.bodyParts : Entity → Nat
  | .leaf .. => 0
  | .message _ inner => inner.bodyParts
  | .multipart _ _ _ _ parts _ => parts.bodyParts

def Parts.bodyParts : Parts → Nat
  | .last e => e.bodyParts + 1
  | .more e rest => e.bodyParts + 1 + rest.bodyParts

end

mutual

def Entity.multiparts : Entity → List MultipartType
  | .leaf .. => []
  | .message _ inner => inner.multiparts
  | .multipart _ type _ _ parts _ => type :: parts.multiparts

def Parts.multiparts : Parts → List MultipartType
  | .last e => e.multiparts
  | .more e rest => e.multiparts ++ rest.multiparts

end

def Entity.boundaries (e : Entity) : List JsString := e.multiparts.map (·.boundary.text)

def Entity.text (e : Entity) : JsString := [13,10].intercalate (e.lines.map Line.text)

def Entity.octets (e : Entity) : List UInt8 := e.text.map UInt16.toUInt8

section Lemmas
variable {e : Entity} {t : MultipartType}

theorem Line.no_break (l : Line) : 13 ∉ l.text ∧ 10 ∉ l.text := by
  constructor
  · intro hc
    simpa [isLineOctet] using l.octets 13 hc
  · intro hc
    simpa [isLineOctet] using l.octets 10 hc

theorem delimits_delimiter (b : PlainBoundary) : delimits b.text b.delimiter.text = some .part := by
  have h := delimits_padding b.text List.all_nil
  rwa [List.append_nil] at h

theorem delimits_closeDelimiter (b : PlainBoundary) : delimits b.text b.closeDelimiter.text = some .close :=
  delimits_close_padding b.text List.all_nil

theorem Entity.lines_ne_nil (e : Entity) : e.lines ≠ [] := by
  cases e <;> simp [Entity.lines]

mutual

/-- The header of every multipart of the tree is written down. -/
theorem Entity.type_lines (e : Entity) (h : t ∈ e.multiparts) : t.lines <:+: e.lines := by
  cases e with
  | leaf fields body => simp [Entity.multiparts] at h
  | message fields inner =>
    rw [Entity.multiparts] at h
    rw [Entity.lines]
    exact List.infix_append_of_infix_right (List.infix_cons (inner.type_lines h))
  | multipart fields type more preamble parts epilogue =>
    rw [Entity.multiparts,List.mem_cons] at h
    rw [Entity.lines]
    rcases h with rfl | h
    · rw [List.append_assoc,List.append_assoc,List.append_assoc,List.append_assoc]
      exact List.infix_append_of_infix_right List.infix_append_left
    · exact List.infix_append_of_infix_left (List.infix_append_of_infix_right (parts.type_lines h))

theorem Parts.type_lines (parts : Parts) {boundary : PlainBoundary} (h : t ∈ parts.multiparts) :
    t.lines <:+: parts.lines boundary := by
  cases parts with
  | last e =>
    rw [Parts.multiparts] at h
    rw [Parts.lines]
    exact List.infix_cons (e.type_lines h)
  | more e rest =>
    rw [Parts.multiparts,List.mem_append] at h
    rw [Parts.lines]
    rcases h with h | h
    · exact List.infix_cons (List.infix_append_of_infix_left (e.type_lines h))
    · exact List.infix_cons (List.infix_append_of_infix_right (rest.type_lines h))

end

theorem MultipartType.lines_ne_nil (t : MultipartType) : t.lines ≠ [] := by
  rw [MultipartType.lines]
  split
  · exact List.cons_ne_nil _ _
  · exact List.cons_ne_nil _ _

/-- The field as it is read, on one line or folded. -/
theorem MultipartType.text_lines (t : MultipartType) : [13,10].intercalate (t.lines.map Line.text) =
    js "Content-Type: multipart/" ++ t.subtype.text ++ js ";" ++ (if t.folded then [13,10] else []) ++
    (js " boundary=" ++ (t.value.text ++ t.rest.text)) := by
  have hopening : t.opening.text = js "Content-Type: multipart/" ++ t.subtype.text ++ js ";" := rfl
  have hclosing : t.closing.text = js " boundary=" ++ (t.value.text ++ t.rest.text) := List.append_assoc _ _ _
  rw [MultipartType.lines]
  split
  · simp [hopening,hclosing]
  · simp [hopening,hclosing]

theorem MultipartType.value_text (t : MultipartType) :
    t.value.text = if t.quoted then [unit '"'] ++ t.boundary.text ++ [unit '"'] else t.boundary.text := by
  rw [MultipartType.value]
  split
  · rfl
  · rfl

theorem MultipartType.rest_head (t : MultipartType) : ∀ c ∈ t.rest.text.head?, c = unit ';' := by
  have hrest : t.rest.text = [] ∨ ∃ text, t.rest.text = unit ';' :: text := by
    rw [MultipartType.rest]
    cases t.further with
    | none => exact .inl rfl
    | some further => exact .inr ⟨further.text,rfl⟩
  rcases hrest with hrest | ⟨text,hrest⟩
  · simp [hrest]
  · simp [hrest]

theorem Entity.text_octets {c : CodeUnit} (h : c ∈ e.text) : c < 256 := by
  rcases mem_intercalate h with hbreak | ⟨p,hp,hc⟩
  · rcases List.mem_pair.mp hbreak with rfl | rfl
    · decide
    · decide
  · obtain ⟨l,-,rfl⟩ := List.mem_map.mp hp
    have hoctet := l.octets c hc
    simp only [isLineOctet,Bool.and_eq_true,decide_eq_true_eq] at hoctet
    exact hoctet.1.1

end Lemmas
end JustMail.Foundation.Mime
