import JustMail.Foundation.Decimal
import JustMail.Foundation.IpAddress
import JustMail.Foundation.Scanning
import JustMail.Foundation.Utf16

/-! The tokens of CSS Syntax. A token keeps the text it was read from; a token that its text
does not end is ended by the end of the stylesheet. -/
namespace JustMail.Foundation.Css

inductive Bracket where
  | round | square | curly
  deriving DecidableEq

inductive Word where
  | ident | function | atKeyword | hash | string | badString | url | badUrl
  | number | percentage | dimension | cdo | cdc | delim
  deriving DecidableEq

inductive TokenKind where
  | blank
  | colon
  | semicolon
  | comma
  | opening (b : Bracket)
  | closing (b : Bracket)
  | word (w : Word)
  deriving DecidableEq

structure Token where
  kind : TokenKind
  text : JsString
  deriving DecidableEq

def LF : CodeUnit := 10
def QUOTE : CodeUnit := unit '"'
def APOSTROPHE : CodeUnit := 0x27
def BACKSLASH : CodeUnit := unit '\\'
def SLASH : CodeUnit := unit '/'
def STAR : CodeUnit := unit '*'
def HYPHEN : CodeUnit := unit '-'
def DOT : CodeUnit := unit '.'
def COLON : CodeUnit := unit ':'
def SEMICOLON : CodeUnit := unit ';'
def OPEN : CodeUnit := 0x28
def CLOSE : CodeUnit := 0x29
def OPEN_CURLY : CodeUnit := 0x7B
def CLOSE_CURLY : CodeUnit := 0x7D

def isBlank (c : CodeUnit) : Bool := c == unit ' ' || c == 9 || c == LF

/-- A letter, a unit beyond ASCII, or a low line. -/
def isIdentStart (c : CodeUnit) : Bool := (65 ≤ c && c ≤ 90) || (97 ≤ c && c ≤ 122) || 128 ≤ c || c == unit '_'

def isIdent (c : CodeUnit) : Bool := isIdentStart c || isDigit c || c == HYPHEN

def isHex (c : CodeUnit) : Bool := (hexVal c).isSome

def isNonPrintable (c : CodeUnit) : Bool := c ≤ 8 || c == 11 || (14 ≤ c && c ≤ 31) || c == 127

/-- CR LF, CR and FF are line feeds, and NUL is replaced. -/
def preprocess : JsString → JsString
  | [] => []
  | c :: s =>
    if c = 13 then if s.head? = some LF then preprocess s else LF :: preprocess s
    else if c = 12 then LF :: preprocess s
    else if c = 0 then 0xFFFD :: preprocess s
    else c :: preprocess s

/-- The units of an escape behind its backslash. -/
def escapeLength (s : JsString) : Nat :=
  let digits := ((s.take 6).takeWhile isHex).length
  if digits = 0 then (s.take 1).length else digits + ((s.drop digits).take 1).countP isBlank

def validEscape : JsString → Bool
  | [] => false
  | c :: s => c == BACKSLASH && s.head? != some LF

def identEscape (s : JsString) : Option Nat := if s.head? = some LF then none else some (escapeLength s)

/-- In a string the backslash takes a line end with it. -/
def stringEscape (s : JsString) : Option Nat := some (if s.head? = some LF then 1 else escapeLength s)

/-- Where a url went wrong, a backslash without an escape is passed over. -/
def remnantEscape (s : JsString) : Option Nat := some (if s.head? = some LF then 0 else escapeLength s)

/-- The code point of the digits; there is none for zero, a surrogate or beyond Unicode. -/
def escapedPoint (digits : JsString) : JsString :=
  let n := digits.foldl (fun n c => 16 * n + (hexVal c).getD 0) 0
  if n = 0 ∨ (0xD800 ≤ n ∧ n ≤ 0xDFFF) ∨ 0x10FFFF < n then [0xFFFD] else utf16 (Char.ofNat n)

/-- The value of a name, its escapes resolved; `skip` units have been used. -/
def unescape : Nat → JsString → JsString
  | _, [] => []
  | skip+1, _ :: s => unescape skip s
  | 0, c :: s =>
    if c = BACKSLASH then
      let digits := (s.take 6).takeWhile isHex
      (if digits = [] then if s = [] then [0xFFFD] else s.take 1 else escapedPoint digits) ++ unescape (escapeLength s) s
    else c :: unescape 0 s

section Reading

def startsIdent : JsString → Bool
  | [] => false
  | c :: s =>
    if c = HYPHEN then s.head?.any (fun d => isIdentStart d || d == HYPHEN) || validEscape s
    else isIdentStart c || validEscape (c :: s)

/-- A digit, or a full stop and a digit. -/
def startsDigits : JsString → Bool
  | [] => false
  | c :: s => isDigit c || (c == DOT && s.head?.any isDigit)

def startsNumber : JsString → Bool
  | [] => false
  | c :: s => if c = unit '+' ∨ c = HYPHEN then startsDigits s else startsDigits (c :: s)

def startsFraction (s : JsString) : Bool := s.head? == some DOT && startsDigits s

def startsExponent : JsString → Bool
  | [] => false
  | c :: s => (c == unit 'e' || c == unit 'E') &&
    (s.head?.any isDigit || (s.head?.any (fun d => d == unit '+' || d == HYPHEN) && s.tail.head?.any isDigit))

def starts (c : CodeUnit) (s : JsString) : Bool := s.head? == some c

open Scanner

def identSequence (skip : Nat) : Scanner JsString := spanEscaped BACKSLASH isIdent identEscape skip

def stringAfter (q : CodeUnit) : Scanner Word := do
  let _ ← spanEscaped BACKSLASH (fun c => c != q && c != LF) stringEscape 0
  if ← look (starts q) then
    let _ ← take 1
    pure .string
  else if ← look List.isEmpty then pure .string
  else pure .badString

def fraction : Scanner Unit := do
  if ← look startsFraction then
    let _ ← take 1
    let _ ← spanWhile isDigit
    pure ()
  else pure ()

def exponent : Scanner Unit := do
  if ← look startsExponent then
    let _ ← take 2
    let _ ← spanWhile isDigit
    pure ()
  else pure ()

def numberUnit : Scanner Word := do
  if ← look startsIdent then
    let _ ← identSequence 0
    pure .dimension
  else if ← look (starts (unit '%')) then
    let _ ← take 1
    pure .percentage
  else pure .number

/-- There is one full stop at most. -/
def fractionAfter (c : CodeUnit) : Scanner Unit := if c = DOT then pure () else fraction

/-- What is behind the first unit of a number. -/
def numberAfter (c : CodeUnit) : Scanner Word := do
  let _ ← spanWhile isDigit
  let _ ← fractionAfter c
  let _ ← exponent
  numberUnit

def badRemnants : Scanner Unit := do
  let _ ← spanEscaped BACKSLASH (· != CLOSE) remnantEscape 0
  if ← look (starts CLOSE) then
    let _ ← take 1
    pure ()
  else pure ()

def isUrlUnit (c : CodeUnit) : Bool :=
  !isBlank c && c != CLOSE && c != QUOTE && c != APOSTROPHE && c != OPEN && !isNonPrintable c

/-- Behind blanks in an url that is not quoted. -/
def urlEnd : Scanner Word := do
  if ← look (starts CLOSE) then
    let _ ← take 1
    pure .url
  else do
    let ended ← look List.isEmpty
    let _ ← badRemnants
    pure (if ended then .url else .badUrl)

def urlBody : Scanner Word := do
  let _ ← spanWhile isBlank
  let _ ← spanEscaped BACKSLASH isUrlUnit identEscape 0
  if ← look fun s => s.head?.any isBlank then
    let _ ← spanWhile isBlank
    urlEnd
  else urlEnd

/-- A quoted url is a function, and one blank is left before the quotation mark. -/
def urlAfter : Scanner Word := do
  if ← look fun s => (s.dropWhile isBlank).head?.any (fun c => c == QUOTE || c == APOSTROPHE) then
    let blanks ← look fun s => (s.takeWhile isBlank).length
    let _ ← take (blanks - 1)
    pure .function
  else urlBody

def isUrlName (name : JsString) : Bool := (unescape 0 name).map asciiLower == js "url"

def identAfter (c : CodeUnit) : Scanner Word := do
  let skip ← look fun s => if c = BACKSLASH then escapeLength s else 0
  let name ← identSequence skip
  if ← look (starts OPEN) then
    let _ ← take 1
    if isUrlName (c :: name) then urlAfter else pure .function
  else pure .ident

def hashAfter : Scanner Word := do
  if ← look fun s => s.head?.any isIdent || validEscape s then
    let _ ← identSequence 0
    pure .hash
  else pure .delim

def atAfter : Scanner Word := do
  if ← look startsIdent then
    let _ ← identSequence 0
    pure .atKeyword
  else pure .delim

def wordAfter (c : CodeUnit) : Scanner Word := do
  if c = QUOTE ∨ c = APOSTROPHE then stringAfter c
  else if c = unit '#' then hashAfter
  else if c = unit '@' then atAfter
  else if ← look fun s => c == unit '<' && (js "!--").isPrefixOf s then
    let _ ← take 3
    pure .cdo
  else if ← look fun s => startsNumber (c :: s) then numberAfter c
  else if ← look fun s => c == HYPHEN && (js "->").isPrefixOf s then
    let _ ← take 2
    pure .cdc
  else if ← look fun s => startsIdent (c :: s) then identAfter c
  else pure .delim

def punctuation (c : CodeUnit) : Option TokenKind :=
  if c = COLON then some .colon
  else if c = SEMICOLON then some .semicolon
  else if c = unit ',' then some .comma
  else if c = OPEN then some (.opening .round)
  else if c = CLOSE then some (.closing .round)
  else if c = unit '[' then some (.opening .square)
  else if c = unit ']' then some (.closing .square)
  else if c = OPEN_CURLY then some (.opening .curly)
  else if c = CLOSE_CURLY then some (.closing .curly)
  else none

def kindAfter (c : CodeUnit) : Scanner TokenKind :=
  match punctuation c with
  | some kind => pure kind
  | none =>
    if isBlank c then do
      let _ ← spanWhile isBlank
      pure .blank
    else do
      let w ← wordAfter c
      pure (.word w)

/-- What is behind a comment, from its first asterisk. -/
def afterComment : JsString → JsString
  | [] => []
  | c :: s => if c = STAR ∧ s.head? = some SLASH then s.tail else afterComment s

theorem afterComment_length (s : JsString) : (afterComment s).length ≤ s.length := by
  induction s with
  | nil => rfl
  | cons c s ih =>
    rw [afterComment]
    split
    · rw [List.length_tail,List.length_cons]
      omega
    · exact ih.trans (Nat.le_succ _)

/-- Comments are no tokens. -/
def lexer : Consumer CodeUnit Token where
  step c s :=
    if c = SLASH ∧ s.head? = some STAR then (none,afterComment s.tail)
    else (some ⟨((kindAfter c).run s).value,c :: ((kindAfter c).run s).text⟩,((kindAfter c).run s).rest)
  shrinks c s := by
    split
    · refine (afterComment_length _).trans ?_
      rw [List.length_tail]
      omega
    · exact length_rest_le s _

def tokens (s : JsString) : List Token := lexer.all s

end Reading

end JustMail.Foundation.Css
