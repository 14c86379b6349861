import JustMail.Foundation.Decimal
import JustMail.Foundation.Folding

/-! The structure of a MIME message (RFC 2045, 2046, 2231): how deep its multiparts are
nested and how many body parts they have. The message is read line by line with the
multiparts that are open at the line. -/
namespace JustMail.Foundation.Mime

def isBlank (c : CodeUnit) : Bool := c == unit ' ' || c == 9

inductive Token where
  | word (text : JsString)
  | quoted (text : JsString)
  | semicolon
  | equals
  | slash
  | other (c : CodeUnit)
  deriving DecidableEq

/-- A unit of a `token`: no space, no control character and no `tspecial`. -/
def isTokenUnit (c : CodeUnit) : Bool := 32 < c && c != 127 && !(js "()<>@,;:\\\"/[]?=").contains c

def tokenOf (c : CodeUnit) : Token :=
  if c = unit ';' then .semicolon else if c = unit '=' then .equals else if c = unit '/' then .slash else .other c

/-- What the lexer is in: a word, a quoted string, or comments `depth` deep in another;
and whether a quoted pair has begun. -/
inductive LexMode where
  | ground (word : JsString)
  | quoted (text : JsString)
  | quotedPair (text : JsString)
  | comment (depth : Nat)
  | commentPair (depth : Nat)

def flushWord (word : JsString) : List Token := if word.isEmpty then [] else [.word word]

/-- The tokens of a structured field body. Comments and white space are dropped, and so
is a quoted string without its end. -/
def lex : LexMode → JsString → List Token
  | .ground word, [] => flushWord word
  | _, [] => []
  | .ground word, c :: s =>
    if isTokenUnit c then lex (.ground (word ++ [c])) s
    else flushWord word ++
      if c = unit '"' then lex (.quoted []) s
      else if c = unit '(' then lex (.comment 0) s
      else if isSpace c then lex (.ground []) s
      else tokenOf c :: lex (.ground []) s
  | .quoted text, c :: s =>
    if c = unit '"' then .quoted text :: lex (.ground []) s
    else if c = unit '\\' then lex (.quotedPair text) s
    else lex (.quoted (text ++ [c])) s
  | .quotedPair text, c :: s => lex (.quoted (text ++ [c])) s
  | .comment depth, c :: s =>
    if c = unit '(' then lex (.comment (depth+1)) s
    else if c = unit ')' then lex (if depth = 0 then .ground [] else .comment (depth-1)) s
    else if c = unit '\\' then lex (.commentPair depth) s
    else lex (.comment depth) s
  | .commentPair depth, _ :: s => lex (.comment depth) s

/-- `*(";" attribute "=" value)`, past what does not read so. -/
def parameters : List Token → List (JsString × JsString)
  | .semicolon :: .word name :: .equals :: .word value :: rest => (name.map asciiLower,value) :: parameters rest
  | .semicolon :: .word name :: .equals :: .quoted value :: rest => (name.map asciiLower,value) :: parameters rest
  | _ :: rest => parameters rest
  | [] => []

structure ContentType where
  mainType : JsString
  subtype : JsString
  params : List (JsString × JsString)

def parseContentType (value : JsString) : Option ContentType :=
  match lex (.ground []) value with
  | .word mainType :: .slash :: .word subtype :: rest =>
    some ⟨mainType.map asciiLower,subtype.map asciiLower,parameters rest⟩
  | _ => none

def hexValue (c : CodeUnit) : Option Nat :=
  if isDigit c then some (c.toNat - 48)
  else if 65 ≤ c ∧ c ≤ 70 then some (c.toNat - 55)
  else if 97 ≤ c ∧ c ≤ 102 then some (c.toNat - 87)
  else none

def percentPair : JsString → Option CodeUnit
  | a :: b :: _ => (hexValue a).bind fun x => (hexValue b).map fun y => (16*x + y).toUInt16
  | _ => none

/-- `%` and two hexadecimal digits stand for an octet. `skip` digits have been used. -/
def percentDecode : Nat → JsString → JsString
  | _, [] => []
  | skip+1, _ :: s => percentDecode skip s
  | 0, c :: s =>
    match if c = unit '%' then percentPair s else none with
    | some octet => octet :: percentDecode 2 s
    | none => c :: percentDecode 0 s

/-- What follows the charset and the language of an extended value; 39 is the quote
that ends each of them. -/
def dropCharset (value : JsString) : JsString :=
  (((cut 39 value).bind fun p => cut 39 p.2).map (·.2)).getD value

/-- The `n`th segment of a continued `boundary`, which may be extended. -/
def boundarySegment (params : List (JsString × JsString)) (n : Nat) : Option JsString :=
  (params.lookup (js "boundary*" ++ decimal n)).or
    ((params.lookup (js "boundary*" ++ decimal n ++ js "*")).map fun value =>
      percentDecode 0 (if n = 0 then dropCharset value else value))

/-- The boundary in its plain, extended or continued spelling. -/
def boundaryValue (params : List (JsString × JsString)) : Option JsString :=
  let segments := ((List.range params.length).map (boundarySegment params)).takeWhile Option.isSome
  (params.lookup (js "boundary")).or
    (((params.lookup (js "boundary*")).map fun value => percentDecode 0 (dropCharset value)).or
      (if segments.isEmpty then none else some segments.reduceOption.flatten))

/-- A boundary is not empty, and white space at its end is no part of it. -/
structure Boundary where
  text : JsString
  nonempty : text ≠ []
  trimmed : text.rdropWhile isBlank = text

def boundaryOf (params : List (JsString × JsString)) : Option Boundary :=
  (boundaryValue params).bind fun value =>
    if h : value.rdropWhile isBlank ≠ [] then some ⟨value.rdropWhile isBlank,h,List.rdropWhile_idempotent isBlank value⟩
    else none

/-- What the header of an entity says about its body. -/
inductive Media where
  | multipart (boundary : Boundary) (digest : Bool)
  | message
  | leaf

def fieldValue (name field : JsString) : Option JsString :=
  (cut (unit ':') field).bind fun p => if (p.1.rdropWhile isBlank).map asciiLower = name then some p.2 else none

/-- The media type of an entity with these fields, the last one first. A part of a
`multipart/digest` is a message by default. -/
def media (digest : Bool) (fields : List JsString) : Media :=
  match fields.reverse.findSome? (fieldValue (js "content-type")) with
  | none => if digest then .message else .leaf
  | some value =>
    match parseContentType value with
    | none => .leaf
    | some type =>
      if type.mainType = js "multipart" then
        match boundaryOf type.params with
        | some boundary => .multipart boundary (type.subtype = js "digest")
        | none => .leaf
      else if type.mainType = js "message" ∧ (type.subtype = js "rfc822" ∨ type.subtype = js "global") then .message
      else .leaf

structure Level where
  boundary : Boundary
  digest : Bool

/-- Inside a header with the fields read so far, or inside a body, a preamble or an epilogue. -/
inductive Mode where
  | header (fields : List JsString) (digest : Bool)
  | body

/-- `path` has the open multiparts from the innermost one on. A multipart is on it from
its first delimiter on; until then it is `declared`. -/
structure Reader where
  path : List Level
  declared : Option Level
  mode : Mode
  depth : Nat
  parts : Nat

def Reader.initial : Reader := ⟨[],none,.header [] false,0,0⟩

inductive Delimiter where
  | part
  | close
  deriving DecidableEq

/-- `"--" boundary ["--"]` with transport padding. -/
def delimits (boundary line : JsString) : Option Delimiter :=
  match (js "--" ++ boundary).isPrefixOf? line with
  | none => none
  | some rest =>
    if rest.all isBlank then some .part
    else
      match (js "--").isPrefixOf? rest with
      | none => none
      | some padding => if padding.all isBlank then some .close else none

/-- The outermost open multipart that the line delimits, with those around it. -/
def locate (line : JsString) : List Level → Option (Delimiter × Level × List Level)
  | [] => none
  | l :: outer => (locate line outer).or ((delimits l.boundary.text line).map fun d => (d,l,outer))

def Reader.delimiter (r : Reader) (line : JsString) : Option (Delimiter × Level × List Level) :=
  (locate line r.path).or (r.declared.bind fun l => (delimits l.boundary.text line).map fun d => (d,l,r.path))

/-- A line that starts with a blank continues the field before it. -/
def addLine (fields : List JsString) (line : JsString) : List JsString :=
  match fields with
  | field :: before => if line.head?.any isBlank then (field ++ line) :: before else line :: fields
  | [] => [line]

def Reader.endHeader (r : Reader) (fields : List JsString) (digest : Bool) : Reader :=
  match media digest fields with
  | .multipart boundary digest => { r with declared := some ⟨boundary,digest⟩, mode := .body }
  | .message => { r with mode := .header [] false }
  | .leaf => { r with mode := .body }

def Reader.line (r : Reader) (line : JsString) : Reader :=
  match r.delimiter line with
  | some (.part,l,outer) => ⟨l :: outer,none,.header [] l.digest,max r.depth (outer.length+1),r.parts+1⟩
  | some (.close,_,outer) => { r with path := outer, declared := none, mode := .body }
  | none =>
    match r.mode with
    | .header fields digest =>
      if line.isEmpty then r.endHeader fields digest else { r with mode := .header (addLine fields line) digest }
    | .body => r

def readLines (lines : List JsString) : Reader := lines.foldl Reader.line .initial

section Lemmas
variable {r : Reader} {line : JsString} {d : Delimiter} {l : Level} {outer : List Level}

theorem delimits_part {boundary : JsString} (h : delimits boundary line = some .part) :
    ∃ padding, line = js "--" ++ boundary ++ padding ∧ padding.all isBlank = true := by
  rw [delimits] at h
  split at h
  · simp at h
  · rename_i rest hrest
    split at h
    · rename_i hblank
      exact ⟨rest,(List.isPrefixOf?_eq_some_iff_append_eq.mp hrest).symm,hblank⟩
    · split at h
      · simp at h
      · split at h <;> simp at h

theorem delimits_close {boundary : JsString} (h : delimits boundary line = some .close) :
    ∃ padding, line = js "--" ++ boundary ++ js "--" ++ padding ∧ padding.all isBlank = true := by
  rw [delimits] at h
  split at h
  · simp at h
  · rename_i rest hrest
    split at h
    · simp at h
    · split at h
      · simp at h
      · rename_i padding hpadding
        split at h
        · rename_i hblank
          refine ⟨padding,?_,hblank⟩
          rw [List.append_assoc (js "--" ++ boundary),List.isPrefixOf?_eq_some_iff_append_eq.mp hpadding,
            List.isPrefixOf?_eq_some_iff_append_eq.mp hrest]
        · simp at h

/-- Conversely, these lines are delimiters. -/
theorem delimits_padding (boundary : JsString) {padding : JsString} (h : padding.all isBlank = true) :
    delimits boundary (js "--" ++ boundary ++ padding) = some .part := by
  rw [delimits,List.isPrefixOf?_eq_some_iff_append_eq.mpr rfl]
  dsimp only
  rw [if_pos h]

theorem delimits_close_padding (boundary : JsString) {padding : JsString} (h : padding.all isBlank = true) :
    delimits boundary (js "--" ++ boundary ++ (js "--" ++ padding)) = some .close := by
  have hdashes : ¬(js "--" ++ padding).all isBlank = true := fun hall =>
    absurd (List.all_eq_true.mp hall (unit '-') (List.mem_append_left padding (by decide))) (by decide)
  rw [delimits,List.isPrefixOf?_eq_some_iff_append_eq.mpr rfl]
  dsimp only
  rw [if_neg hdashes,List.isPrefixOf?_eq_some_iff_append_eq.mpr rfl]
  dsimp only
  rw [if_pos h]

theorem locate_none {path : List Level} (h : locate line path = none) : ∀ l ∈ path, delimits l.boundary.text line = none := by
  induction path with
  | nil => simp
  | cons l outer ih =>
    rw [locate,Option.or_eq_none_iff,Option.map_eq_none_iff] at h
    intro l' hl'
    rcases List.mem_cons.mp hl' with rfl | hl'
    · exact h.2
    · exact ih h.1 l' hl'

theorem locate_some {path : List Level} (h : locate line path = some (d,l,outer)) :
    (l :: outer) <:+ path ∧ delimits l.boundary.text line = some d := by
  induction path with
  | nil => simp [locate] at h
  | cons l' path ih =>
    rw [locate] at h
    cases hrest : locate line path with
    | some found =>
      rw [hrest,Option.some_or] at h
      obtain ⟨hsuffix,hd⟩ := ih (hrest.trans h)
      exact ⟨hsuffix.trans (List.suffix_cons l' path),hd⟩
    | none =>
      rw [hrest,Option.none_or] at h
      obtain ⟨d',hd',heq⟩ := Option.map_eq_some_iff.mp h
      simp only [Prod.mk.injEq] at heq
      obtain ⟨rfl,rfl,rfl⟩ := heq
      exact ⟨List.suffix_refl _,hd'⟩

/-- A delimiter belongs to an open multipart, or to the declared one if to no open one. -/
theorem delimiter_cases (h : r.delimiter line = some (d,l,outer)) :
    delimits l.boundary.text line = some d ∧
    ((l :: outer) <:+ r.path ∨ outer = r.path ∧ ∀ l' ∈ r.path, delimits l'.boundary.text line = none) := by
  rw [Reader.delimiter] at h
  cases hpath : locate line r.path with
  | some found =>
    rw [hpath,Option.some_or] at h
    obtain ⟨hsuffix,hd⟩ := locate_some (hpath.trans h)
    exact ⟨hd,.inl hsuffix⟩
  | none =>
    rw [hpath,Option.none_or] at h
    obtain ⟨l',-,hl'⟩ := Option.bind_eq_some_iff.mp h
    obtain ⟨d',hd',heq⟩ := Option.map_eq_some_iff.mp hl'
    simp only [Prod.mk.injEq] at heq
    obtain ⟨rfl,rfl,rfl⟩ := heq
    exact ⟨hd',.inr ⟨rfl,locate_none hpath⟩⟩

theorem line_part (h : r.delimiter line = some (.part,l,outer)) :
    (r.line line).path = l :: outer ∧ (r.line line).depth = max r.depth (outer.length+1) ∧ (r.line line).parts = r.parts+1 := by
  rw [Reader.line,h]
  exact ⟨rfl,rfl,rfl⟩

theorem line_close (h : r.delimiter line = some (.close,l,outer)) :
    (r.line line).path = outer ∧ (r.line line).depth = r.depth ∧ (r.line line).parts = r.parts := by
  rw [Reader.line,h]
  exact ⟨rfl,rfl,rfl⟩

theorem line_none (h : r.delimiter line = none) :
    (r.line line).path = r.path ∧ (r.line line).depth = r.depth ∧ (r.line line).parts = r.parts := by
  rw [Reader.line,h]
  dsimp only
  split
  · split
    · rw [Reader.endHeader]
      split <;> exact ⟨rfl,rfl,rfl⟩
    · exact ⟨rfl,rfl,rfl⟩
  · exact ⟨rfl,rfl,rfl⟩

end Lemmas
end JustMail.Foundation.Mime
