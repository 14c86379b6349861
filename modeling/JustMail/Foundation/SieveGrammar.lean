import JustMail.Foundation.CodeUnits
import JustMail.Foundation.Escaping

/-! The Sieve language of RFC 5228: its lexical rules, read one unit at a time, and
its grammar over the tokens. A bare LF counts as a line end; units past ASCII stand
where the RFC allows octets past 7F. -/
namespace JustMail.Foundation.Sieve

inductive Token where
  | ident (name : JsString)
  | tag (name : JsString)
  | number (n : Nat)
  | str (s : JsString)
  | lbracket | rbracket | lparen | rparen | lbrace | rbrace | comma | semicolon
  deriving DecidableEq

/-- What the lexer is inside of. Text collected so far is kept in order. -/
inductive Mode where
  | ground
  | cr
  | ident (name : JsString)
  | tagStart
  | tag (name : JsString)
  | number (n : Nat)
  | quoted (s : JsString)
  | quotedEscape (s : JsString)
  | quotedCr (s : JsString)
  | hash
  | hashCr
  | slash
  | bracket
  | bracketCr
  | bracketStar
  | textHead
  | textHeadCr
  | textHash
  | textHashCr
  | textStart (s : JsString)
  | textDot (s : JsString)
  | textDotCr (s : JsString)
  | textLine (s : JsString)
  | textLineCr (s : JsString)
  deriving DecidableEq

def NUL : CodeUnit := 0
def LF : CodeUnit := 10
def CR : CodeUnit := 13
def QUOTE : CodeUnit := unit '"'
def BACKSLASH : CodeUnit := unit '\\'

def isAlpha (c : CodeUnit) : Bool := (65 ≤ c && c ≤ 90) || (97 ≤ c && c ≤ 122) || c == unit '_'
def isDecimal (c : CodeUnit) : Bool := 48 ≤ c && c ≤ 57
def isBlank (c : CodeUnit) : Bool := c == unit ' ' || c == 9

/-- K, M or G, in either case. -/
def quantifier (c : CodeUnit) : Option Nat :=
  if c = unit 'k' ∨ c = unit 'K' then some 1024
  else if c = unit 'm' ∨ c = unit 'M' then some 1048576
  else if c = unit 'g' ∨ c = unit 'G' then some 1073741824
  else none

/-- The unit that starts something new, between tokens. -/
def start (c : CodeUnit) : Option (Mode × List Token) :=
  if isBlank c || c == LF then some (.ground,[])
  else if c = CR then some (.cr,[])
  else if isAlpha c then some (.ident [asciiLower c],[])
  else if isDecimal c then some (.number (c.toNat - 48),[])
  else if c = unit ':' then some (.tagStart,[])
  else if c = QUOTE then some (.quoted [],[])
  else if c = unit '#' then some (.hash,[])
  else if c = unit '/' then some (.slash,[])
  else if c = unit '[' then some (.ground,[.lbracket])
  else if c = unit ']' then some (.ground,[.rbracket])
  else if c = unit '(' then some (.ground,[.lparen])
  else if c = unit ')' then some (.ground,[.rparen])
  else if c = 0x7B then some (.ground,[.lbrace])
  else if c = 0x7D then some (.ground,[.rbrace])
  else if c = unit ',' then some (.ground,[.comma])
  else if c = unit ';' then some (.ground,[.semicolon])
  else none

/-- A token that ends because `c` cannot continue it. -/
def finishWith (t : Token) (c : CodeUnit) : Option (Mode × List Token) :=
  (start c).map fun p => (p.1,t :: p.2)

/-- A unit inside text where every unit but NUL, CR and LF stands for itself. -/
def plain (c : CodeUnit) : Bool := c != NUL && c != CR && c != LF

/-- What one unit does: the next mode and the tokens it completes. -/
def advance : Mode → CodeUnit → Option (Mode × List Token)
  | .ground, c => start c
  | .cr, c => if c = LF then some (.ground,[]) else none
  | .ident name, c =>
    if isAlpha c || isDecimal c then some (.ident (name ++ [asciiLower c]),[])
    else if name = js "text" ∧ c = unit ':' then some (.textHead,[])
    else finishWith (.ident name) c
  | .tagStart, c => if isAlpha c then some (.tag [asciiLower c],[]) else none
  | .tag name, c =>
    if isAlpha c || isDecimal c then some (.tag (name ++ [asciiLower c]),[]) else finishWith (.tag name) c
  | .number n, c =>
    if isDecimal c then some (.number (10*n + (c.toNat - 48)),[])
    else match quantifier c with
      | some k => some (.ground,[.number (k*n)])
      | none => finishWith (.number n) c
  | .quoted s, c =>
    if c = QUOTE then some (.ground,[.str s])
    else if c = BACKSLASH then some (.quotedEscape s,[])
    else if c = CR then some (.quotedCr s,[])
    else if c = NUL then none
    else some (.quoted (s ++ [c]),[])
  | .quotedEscape s, c => if plain c then some (.quoted (s ++ [c]),[]) else none
  | .quotedCr s, c => if c = LF then some (.quoted (s ++ [CR,LF]),[]) else none
  | .hash, c =>
    if c = LF then some (.ground,[]) else if c = CR then some (.hashCr,[])
    else if c = NUL then none else some (.hash,[])
  | .hashCr, c => if c = LF then some (.ground,[]) else none
  | .slash, c => if c = unit '*' then some (.bracket,[]) else none
  | .bracket, c =>
    if c = unit '*' then some (.bracketStar,[]) else if c = CR then some (.bracketCr,[])
    else if c = NUL then none else some (.bracket,[])
  | .bracketCr, c => if c = LF then some (.bracket,[]) else none
  | .bracketStar, c =>
    if c = unit '/' then some (.ground,[]) else if c = unit '*' then some (.bracketStar,[])
    else if c = CR then some (.bracketCr,[]) else if c = NUL then none else some (.bracket,[])
  | .textHead, c =>
    if isBlank c then some (.textHead,[]) else if c = unit '#' then some (.textHash,[])
    else if c = LF then some (.textStart [],[]) else if c = CR then some (.textHeadCr,[]) else none
  | .textHeadCr, c => if c = LF then some (.textStart [],[]) else none
  | .textHash, c =>
    if c = LF then some (.textStart [],[]) else if c = CR then some (.textHashCr,[])
    else if c = NUL then none else some (.textHash,[])
  | .textHashCr, c => if c = LF then some (.textStart [],[]) else none
  | .textStart s, c =>
    if c = unit '.' then some (.textDot s,[]) else if c = LF then some (.textStart (s ++ [LF]),[])
    else if c = CR then some (.textLineCr s,[]) else if c = NUL then none else some (.textLine (s ++ [c]),[])
  -- a line of one period ends the text, a doubled period at a line start is one
  | .textDot s, c =>
    if c = LF then some (.ground,[.str s]) else if c = CR then some (.textDotCr s,[])
    else if c = NUL then none
    else if c = unit '.' then some (.textLine (s ++ [c]),[]) else some (.textLine (s ++ [unit '.',c]),[])
  | .textDotCr s, c => if c = LF then some (.ground,[.str s]) else none
  | .textLine s, c =>
    if c = LF then some (.textStart (s ++ [LF]),[]) else if c = CR then some (.textLineCr s,[])
    else if c = NUL then none else some (.textLine (s ++ [c]),[])
  | .textLineCr s, c => if c = LF then some (.textStart (s ++ [CR,LF]),[]) else none

/-- The lexer's mode with the tokens completed so far. -/
structure Scan where
  mode : Mode
  tokens : List Token
  deriving DecidableEq

def Scan.initial : Scan := ⟨.ground,[]⟩

def scanUnit (st : Scan) (c : CodeUnit) : Option Scan :=
  (advance st.mode c).map fun p => ⟨p.1,st.tokens ++ p.2⟩

def scan (st : Scan) (text : JsString) : Option Scan := text.foldlM scanUnit st

/-- The token a mode stands for at the end of the script. -/
def atEnd : Mode → Option (List Token)
  | .ground => some []
  | .ident name => some [.ident name]
  | .tag name => some [.tag name]
  | .number n => some [.number n]
  | _ => none

def lex (text : JsString) : Option (List Token) :=
  (scan .initial text).bind fun st => (atEnd st.mode).map fun ts => st.tokens ++ ts

inductive Argument where
  | strings (ss : List JsString)
  | number (n : Nat)
  | tag (name : JsString)
  deriving DecidableEq

/-- Whether arguments end in nothing, in one test or in a test list. -/
inductive TestForm where
  | none
  | single
  | list
  deriving DecidableEq

/-- `arguments = *argument [ test / test-list ]`, over the type of tests. -/
structure Arguments (T : Type) where
  args : List Argument
  form : TestForm
  tests : List T

/-- `test = identifier arguments`. -/
inductive Test where
  | mk (name : JsString) (arguments : Arguments Test)

/-- `command = identifier arguments (";" / block)`. -/
inductive Command where
  | mk (name : JsString) (arguments : Arguments Test) (block : Option (List Command))

def Arguments.empty : Arguments Test := ⟨[],.none,[]⟩

/-- The rest of a bracketed string list, after its opening bracket. -/
def parseStrings : List Token → Option (List JsString × List Token)
  | .str s :: .comma :: ts => (parseStrings ts).map fun p => (s :: p.1,p.2)
  | .str s :: .rbracket :: ts => some ([s],ts)
  | _ => none

/-- `argument = string-list / number / tag`. -/
def parseArgument : List Token → Option (Argument × List Token)
  | .str s :: ts => some (.strings [s],ts)
  | .number n :: ts => some (.number n,ts)
  | .tag name :: ts => some (.tag name,ts)
  | .lbracket :: ts => (parseStrings ts).map fun p => (.strings p.1,p.2)
  | _ => none

mutual

/-- Every round consumes a token, so the number of tokens is enough fuel. -/
def parseArguments : Nat → List Token → Option (Arguments Test × List Token)
  | 0, _ => none
  | fuel+1, ts =>
    match parseArgument ts with
    | some (a,rest) => (parseArguments fuel rest).map fun p => ({ p.1 with args := a :: p.1.args },p.2)
    | none =>
      match ts with
      | .ident name :: rest => (parseArguments fuel rest).map fun p => (⟨[],.single,[.mk name p.1]⟩,p.2)
      | .lparen :: rest => (parseTests fuel rest).map fun p => (⟨[],.list,p.1⟩,p.2)
      | _ => some (.empty,ts)

/-- The rest of a test list, after its opening parenthesis. -/
def parseTests : Nat → List Token → Option (List Test × List Token)
  | fuel+1, .ident name :: rest =>
    match parseArguments fuel rest with
    | some (a,.comma :: rest) => (parseTests fuel rest).map fun p => (.mk name a :: p.1,p.2)
    | some (a,.rparen :: rest) => some ([.mk name a],rest)
    | _ => none
  | _, _ => none

end

/-- Commands up to the first token that starts none. -/
def parseCommands : Nat → List Token → Option (List Command × List Token)
  | 0, _ => none
  | fuel+1, .ident name :: rest =>
    match parseArguments fuel rest with
    | some (a,.semicolon :: rest) => (parseCommands fuel rest).map fun p => (.mk name a none :: p.1,p.2)
    | some (a,.lbrace :: rest) =>
      match parseCommands fuel rest with
      | some (body,.rbrace :: rest) => (parseCommands fuel rest).map fun p => (.mk name a (some body) :: p.1,p.2)
      | _ => none
    | _ => none
  | _+1, ts => some ([],ts)

def parseTokens (ts : List Token) : Option (List Command) :=
  match parseCommands (ts.length+1) ts with
  | some (commands,[]) => some commands
  | _ => none

/-- `start = commands`, over the text of a script. -/
def parse (script : JsString) : Option (List Command) := (lex script).bind parseTokens

section Scanning

theorem scan_append (st : Scan) (a b : JsString) : scan st (a ++ b) = (scan st a).bind fun st => scan st b :=
  List.foldlM_append

/-- Tokens completed earlier only stand in front. -/
theorem scan_frame (m : Mode) (out : List Token) (text : JsString) :
    scan ⟨m,out⟩ text = (scan ⟨m,[]⟩ text).map fun st => ⟨st.mode,out ++ st.tokens⟩ := by
  induction text generalizing m out with
  | nil => simp [scan]
  | cons c text ih =>
    simp only [scan,List.foldlM_cons,scanUnit]
    cases advance m c with
    | none => rfl
    | some p =>
      change scan ⟨p.1,out ++ p.2⟩ text = (scan ⟨p.1,[] ++ p.2⟩ text).map _
      rw [ih p.1 (out ++ p.2),ih p.1 ([] ++ p.2)]
      simp [Option.map_map,Function.comp_def]

/-- A piece of text that is read between tokens: it is refused, or gives these
tokens and leaves the lexer between tokens again. -/
def Piece (text : JsString) (refused : Bool) (ts : List Token) : Prop :=
  scan .initial text = if refused then none else some ⟨.ground,ts⟩

section Pieces
variable {a b : JsString} {p q : Bool} {s t : List Token}

theorem Piece.nil : Piece [] false [] := rfl

theorem Piece.append (ha : Piece a p s) (hb : Piece b q t) : Piece (a ++ b) (p || q) (s ++ t) := by
  rw [Piece,scan_append,ha]
  cases p with
  | true => rfl
  | false =>
    change scan ⟨.ground,s⟩ b = _
    rw [scan_frame,show scan ⟨.ground,[]⟩ b = _ from hb]
    cases q <;> rfl

theorem Piece.lex (h : Piece a p s) : lex a = if p then none else some s := by
  rw [Sieve.lex,h]
  cases p <;> simp [atEnd]

end Pieces

section Lists
variable {α : Type} {f : α → JsString} {g : α → Bool} {h : α → List Token}

theorem Piece.flatMap (xs : List α) (hx : ∀ x ∈ xs, Piece (f x) (g x) (h x)) :
    Piece (xs.flatMap f) (xs.any g) (xs.flatMap h) := by
  induction xs with
  | nil => exact .nil
  | cons x xs ih => exact (hx x (by simp)).append (ih fun y hy => hx y (by simp [hy]))

theorem Piece.intercalate {sep : JsString} {st : List Token} (hsep : Piece sep false st) (xs : List α)
    (hx : ∀ x ∈ xs, Piece (f x) (g x) (h x)) :
    Piece (sep.intercalate (xs.map f)) (xs.any g) (st.intercalate (xs.map h)) := by
  induction xs with
  | nil => exact .nil
  | cons x xs ih =>
    have hrest := ih fun y hy => hx y (by simp [hy])
    cases xs with
    | nil => simpa using hx x (by simp)
    | cons y ys =>
      have htext : sep.intercalate ((x :: y :: ys).map f) = f x ++ (sep ++ sep.intercalate ((y :: ys).map f)) := by
        simp [List.intercalate_cons_cons]
      have htokens : st.intercalate ((x :: y :: ys).map h) = h x ++ (st ++ st.intercalate ((y :: ys).map h)) := by
        simp [List.intercalate_cons_cons]
      rw [htext,htokens,List.any_cons]
      exact (hx x (by simp)).append (hsep.append hrest)

private theorem nil_intercalate (xss : List (List Token)) : ([] : List Token).intercalate xss = xss.flatten := by
  induction xss with
  | nil => rfl
  | cons xs xss ih =>
    cases xss with
    | nil => simp
    | cons ys yss => rw [List.intercalate_cons_cons,ih,List.append_nil,← List.flatten_cons]

theorem Piece.spaced {sep : JsString} (hsep : Piece sep false []) (xs : List α)
    (hx : ∀ x ∈ xs, Piece (f x) (g x) (h x)) :
    Piece (sep.intercalate (xs.map f)) (xs.any g) (xs.flatMap h) := by
  have hlist := hsep.intercalate xs hx
  rwa [nil_intercalate] at hlist

end Lists

theorem scan_cons (st : Scan) (c : CodeUnit) (text : JsString) :
    scan st (c :: text) = (scanUnit st c).bind fun st => scan st text := List.foldlM_cons

end Scanning

section Quoting
variable {c : CodeUnit}

/-- A carriage return that no line feed follows. -/
def hasBareCr : JsString → Bool
  | [] => false
  | [c] => c == CR
  | c :: d :: s => if c = CR then d != LF || hasBareCr s else hasBareCr (d :: s)

/-- The escapes of a quoted string. -/
def quoteCode (c : CodeUnit) : Option CodeUnit := if c = BACKSLASH ∨ c = QUOTE then some c else none

/-- A string between quotes, with backslashes before backslashes and quotes. -/
def quotedText (s : JsString) : JsString := QUOTE :: (escapeWith BACKSLASH quoteCode s ++ [QUOTE])

private theorem scan_quoted_special (h : c = BACKSLASH ∨ c = QUOTE) (acc text : JsString) :
    scan ⟨.quoted acc,[]⟩ (BACKSLASH :: c :: text) = scan ⟨.quoted (acc ++ [c]),[]⟩ text := by
  rcases h with rfl | rfl <;> rfl

private theorem scan_quoted_plain (hq : c ≠ QUOTE) (hb : c ≠ BACKSLASH) (hr : c ≠ CR) (hn : c ≠ NUL)
    (acc text : JsString) : scan ⟨.quoted acc,[]⟩ (c :: text) = scan ⟨.quoted (acc ++ [c]),[]⟩ text := by
  simp [scan_cons,scanUnit,advance,hq,hb,hr,hn]

private theorem scan_quoted_unit (hr : c ≠ CR) (hn : c ≠ NUL) (acc s text : JsString) :
    scan ⟨.quoted acc,[]⟩ (escapeWith BACKSLASH quoteCode (c :: s) ++ text) =
      scan ⟨.quoted (acc ++ [c]),[]⟩ (escapeWith BACKSLASH quoteCode s ++ text) := by
  rw [escapeWith_cons]
  by_cases hc : c = BACKSLASH ∨ c = QUOTE
  · rw [quoteCode,if_pos hc]
    exact scan_quoted_special hc acc _
  · rw [quoteCode,if_neg hc]
    rw [not_or] at hc
    exact scan_quoted_plain hc.2 hc.1 hr hn acc _

private theorem scan_quoted_crlf (acc text : JsString) :
    scan ⟨.quoted acc,[]⟩ (CR :: LF :: text) = scan ⟨.quoted (acc ++ [CR,LF]),[]⟩ text := rfl

private theorem scan_quoted_cr (h : c ≠ LF) (acc text : JsString) :
    scan ⟨.quoted acc,[]⟩ (CR :: c :: text) = none := by
  have hcr : scanUnit ⟨.quoted acc,[]⟩ CR = some ⟨.quotedCr acc,[]⟩ := rfl
  have hnext : scanUnit ⟨.quotedCr acc,[]⟩ c = none := by simp [scanUnit,advance,h]
  rw [scan_cons,hcr,Option.bind_some,scan_cons,hnext]
  rfl

private theorem scan_quoted_nul (acc s text : JsString) :
    scan ⟨.quoted acc,[]⟩ (escapeWith BACKSLASH quoteCode (NUL :: s) ++ text) = none := rfl

/-- A string that no quoted string stands for. -/
def unquotable (s : JsString) : Bool := hasBareCr s || decide (NUL ∈ s)

private theorem scan_quoted_escape (s acc : JsString) :
    scan ⟨.quoted acc,[]⟩ (escapeWith BACKSLASH quoteCode s ++ [QUOTE]) =
      if unquotable s then none else some ⟨.ground,[.str (acc ++ s)]⟩ := by
  unfold unquotable
  fun_induction hasBareCr s generalizing acc with
  | case1 => simp [scan,scanUnit,advance]
  | case2 c =>
    by_cases hc : c = CR
    · subst hc
      exact scan_quoted_cr (by decide) acc []
    by_cases hn : c = NUL
    · subst hn
      exact scan_quoted_nul acc [] [QUOTE]
    · rw [scan_quoted_unit hc hn,if_neg (by simp [hc,Ne.symm hn])]
      rfl
  | case3 d s ih =>
    by_cases hd : d = LF
    · subst hd
      change scan ⟨.quoted acc,[]⟩ (CR :: LF :: (escapeWith BACKSLASH quoteCode s ++ [QUOTE])) = _
      rw [scan_quoted_crlf,ih]
      simp +decide
    · have hhead : ∃ c text, c ≠ LF ∧
          escapeWith BACKSLASH quoteCode (CR :: d :: s) ++ [QUOTE] = CR :: c :: text := by
        by_cases hq : d = BACKSLASH ∨ d = QUOTE
        · refine ⟨BACKSLASH,d :: (escapeWith BACKSLASH quoteCode s ++ [QUOTE]),by decide,?_⟩
          simp +decide [escapeWith_cons,quoteCode,hq]
        · refine ⟨d,escapeWith BACKSLASH quoteCode s ++ [QUOTE],hd,?_⟩
          simp +decide [escapeWith_cons,quoteCode,hq]
      obtain ⟨c,text,hc,htext⟩ := hhead
      rw [htext,scan_quoted_cr hc,if_pos (by simp [hd])]
  | case4 c d s hc ih =>
    by_cases hn : c = NUL
    · subst hn
      rw [scan_quoted_nul,if_pos (by simp)]
    · rw [scan_quoted_unit hc hn,ih]
      simp [Ne.symm hn]

/-- A quoted string is one token, unless it holds a NUL or a bare carriage return. -/
theorem piece_quotedText (s : JsString) : Piece (quotedText s) (unquotable s) [.str s] := by
  rw [Piece,quotedText,scan_cons,show scanUnit .initial QUOTE = some ⟨.quoted [],[]⟩ from rfl,Option.bind_some,
    scan_quoted_escape s]
  rfl

private theorem scan_hash {text : JsString} (hl : LF ∉ text) (hr : CR ∉ text) :
    scan ⟨.hash,[]⟩ text = if NUL ∈ text then none else some ⟨.hash,[]⟩ := by
  induction text with
  | nil => rfl
  | cons c text ih =>
    rw [List.mem_cons,not_or] at hl hr
    rw [scan_cons,scanUnit,advance,if_neg (Ne.symm hl.1),if_neg (Ne.symm hr.1)]
    by_cases hn : c = NUL
    · simp [hn]
    · rw [if_neg hn]
      change scan ⟨.hash,[]⟩ text = _
      rw [ih hl.2 hr.2]
      simp [Ne.symm hn]

/-- A comment line is no token, unless it holds a NUL. -/
theorem piece_comment {text : JsString} (hl : LF ∉ text) (hr : CR ∉ text) :
    Piece (unit '#' :: (text ++ [LF])) (decide (NUL ∈ text)) [] := by
  rw [Piece,scan_cons,show scanUnit .initial (unit '#') = some ⟨.hash,[]⟩ from rfl,Option.bind_some,scan_append,
    scan_hash hl hr]
  by_cases hn : NUL ∈ text
  · simp [hn]
  · simp [hn,scan,scanUnit,advance]

end Quoting

section Parsing
variable {ts ts' rest : List Token} {a : Arguments Test} {tests : List Test} {commands body : List Command}

/-- Arguments are read off the front, with any fuel past the number of tokens. -/
structure ReadsArguments (ts : List Token) (a : Arguments Test) (rest : List Token) : Prop where
  result (fuel : Nat) : ts.length < fuel → parseArguments fuel ts = some (a,rest)
  shorter : rest.length ≤ ts.length

/-- The rest of a test list is read off the front. -/
structure ReadsTests (ts : List Token) (tests : List Test) (rest : List Token) : Prop where
  result (fuel : Nat) : ts.length < fuel → parseTests fuel ts = some (tests,rest)
  shorter : rest.length ≤ ts.length

/-- Commands are read off the front. -/
structure ReadsCommands (ts : List Token) (commands : List Command) (rest : List Token) : Prop where
  result (fuel : Nat) : ts.length < fuel → parseCommands fuel ts = some (commands,rest)
  shorter : rest.length ≤ ts.length

def endsArguments : Token → Bool
  | .semicolon | .lbrace | .comma | .rparen => true
  | _ => false

theorem ReadsArguments.stop {t : Token} (h : endsArguments t = true) (ts : List Token) :
    ReadsArguments (t :: ts) .empty (t :: ts) := by
  refine ⟨fun fuel hf => ?_,le_rfl⟩
  obtain ⟨fuel,rfl⟩ : ∃ k, fuel = k+1 := ⟨fuel-1,by omega⟩
  cases t <;> first | rfl | simp [endsArguments] at h

theorem ReadsArguments.argument {x : Argument} (hx : parseArgument ts = some (x,ts')) (hlen : ts'.length < ts.length)
    (h : ReadsArguments ts' a rest) : ReadsArguments ts { a with args := x :: a.args } rest := by
  refine ⟨fun fuel hf => ?_,by have := h.shorter; omega⟩
  obtain ⟨fuel,rfl⟩ : ∃ k, fuel = k+1 := ⟨fuel-1,by omega⟩
  unfold parseArguments
  rw [hx]
  simp [h.result fuel (by omega)]

theorem ReadsArguments.test (name : JsString) (h : ReadsArguments ts a rest) :
    ReadsArguments (.ident name :: ts) ⟨[],.single,[.mk name a]⟩ rest := by
  refine ⟨fun fuel hf => ?_,by have := h.shorter; simp only [List.length_cons]; omega⟩
  rw [List.length_cons] at hf
  obtain ⟨fuel,rfl⟩ : ∃ k, fuel = k+1 := ⟨fuel-1,by omega⟩
  simp [parseArguments,parseArgument,h.result fuel (by omega)]

theorem ReadsArguments.testList (h : ReadsTests ts tests rest) :
    ReadsArguments (.lparen :: ts) ⟨[],.list,tests⟩ rest := by
  refine ⟨fun fuel hf => ?_,by have := h.shorter; simp only [List.length_cons]; omega⟩
  rw [List.length_cons] at hf
  obtain ⟨fuel,rfl⟩ : ∃ k, fuel = k+1 := ⟨fuel-1,by omega⟩
  simp [parseArguments,parseArgument,h.result fuel (by omega)]

theorem ReadsTests.last (name : JsString) (h : ReadsArguments ts a (.rparen :: rest)) :
    ReadsTests (.ident name :: ts) [.mk name a] rest := by
  have hs := h.shorter
  rw [List.length_cons] at hs
  refine ⟨fun fuel hf => ?_,by simp only [List.length_cons]; omega⟩
  rw [List.length_cons] at hf
  obtain ⟨fuel,rfl⟩ : ∃ k, fuel = k+1 := ⟨fuel-1,by omega⟩
  simp [parseTests,h.result fuel (by omega)]

theorem ReadsTests.cons (name : JsString) (h : ReadsArguments ts a (.comma :: ts')) (hs : ReadsTests ts' tests rest) :
    ReadsTests (.ident name :: ts) (.mk name a :: tests) rest := by
  have h₁ := h.shorter
  have h₂ := hs.shorter
  rw [List.length_cons] at h₁
  refine ⟨fun fuel hf => ?_,by simp only [List.length_cons]; omega⟩
  rw [List.length_cons] at hf
  obtain ⟨fuel,rfl⟩ : ∃ k, fuel = k+1 := ⟨fuel-1,by omega⟩
  simp [parseTests,h.result fuel (by omega),hs.result fuel (by omega)]

theorem ReadsCommands.nil : ReadsCommands [] [] [] := by
  refine ⟨fun fuel hf => ?_,le_rfl⟩
  obtain ⟨fuel,rfl⟩ : ∃ k, fuel = k+1 := ⟨fuel-1,by omega⟩
  rfl

theorem ReadsCommands.endBlock (ts : List Token) : ReadsCommands (.rbrace :: ts) [] (.rbrace :: ts) := by
  refine ⟨fun fuel hf => ?_,le_rfl⟩
  obtain ⟨fuel,rfl⟩ : ∃ k, fuel = k+1 := ⟨fuel-1,by omega⟩
  rfl

theorem ReadsCommands.simple (name : JsString) (h : ReadsArguments ts a (.semicolon :: ts'))
    (hs : ReadsCommands ts' commands rest) :
    ReadsCommands (.ident name :: ts) (.mk name a none :: commands) rest := by
  have h₁ := h.shorter
  have h₂ := hs.shorter
  rw [List.length_cons] at h₁
  refine ⟨fun fuel hf => ?_,by simp only [List.length_cons]; omega⟩
  rw [List.length_cons] at hf
  obtain ⟨fuel,rfl⟩ : ∃ k, fuel = k+1 := ⟨fuel-1,by omega⟩
  simp [parseCommands,h.result fuel (by omega),hs.result fuel (by omega)]

theorem ReadsCommands.block (name : JsString) {inner : List Token} (h : ReadsArguments ts a (.lbrace :: inner))
    (hb : ReadsCommands inner body (.rbrace :: ts')) (hs : ReadsCommands ts' commands rest) :
    ReadsCommands (.ident name :: ts) (.mk name a (some body) :: commands) rest := by
  have h₁ := h.shorter
  have h₂ := hb.shorter
  have h₃ := hs.shorter
  rw [List.length_cons] at h₁ h₂
  refine ⟨fun fuel hf => ?_,by simp only [List.length_cons]; omega⟩
  rw [List.length_cons] at hf
  obtain ⟨fuel,rfl⟩ : ∃ k, fuel = k+1 := ⟨fuel-1,by omega⟩
  simp [parseCommands,h.result fuel (by omega),hb.result fuel (by omega),hs.result fuel (by omega)]

theorem ReadsCommands.parseTokens (h : ReadsCommands ts commands []) : parseTokens ts = some commands := by
  rw [Sieve.parseTokens,h.result _ (by omega)]

theorem parseStrings_list {ss : List JsString} (hss : ss ≠ []) (ts : List Token) :
    parseStrings ([Token.comma].intercalate (ss.map fun s => [.str s]) ++ .rbracket :: ts) = some (ss,ts) := by
  induction ss with
  | nil => exact absurd rfl hss
  | cons s ss ih =>
    cases ss with
    | nil => rfl
    | cons r ss =>
      have h := ih (by simp)
      have htokens : [Token.comma].intercalate ((s :: r :: ss).map fun s => [Token.str s]) =
          .str s :: .comma :: [Token.comma].intercalate ((r :: ss).map fun s => [Token.str s]) := by
        simp [List.intercalate]
      rw [htokens]
      simp only [List.cons_append,parseStrings,h,Option.map_some]

private theorem parseArguments_empty {fuel : Nat} (h : parseArguments fuel ts = some (.empty,rest)) : rest = ts := by
  cases fuel with
  | zero => simp [parseArguments] at h
  | succ fuel =>
    unfold parseArguments at h
    split at h
    · obtain ⟨p,-,hp⟩ := Option.map_eq_some_iff.mp h
      simp [Arguments.empty] at hp
    · split at h
      · obtain ⟨p,-,hp⟩ := Option.map_eq_some_iff.mp h
        simp [Arguments.empty] at hp
      · obtain ⟨p,-,hp⟩ := Option.map_eq_some_iff.mp h
        simp [Arguments.empty] at hp
      · simpa using h.symm

private theorem parseCommands_nil {fuel : Nat} (h : parseCommands fuel ts = some ([],rest)) : rest = ts := by
  unfold parseCommands at h
  split at h
  · simp at h
  · split at h
    · obtain ⟨p,-,hp⟩ := Option.map_eq_some_iff.mp h
      simp at hp
    · split at h
      · obtain ⟨p,-,hp⟩ := Option.map_eq_some_iff.mp h
        simp at hp
      · simp at h
    · simp at h
  · simpa using h.symm

/-- A script of one command without arguments has only that command's tokens. -/
theorem parseTokens_single {name : JsString} (h : parseTokens ts = some [.mk name .empty none]) :
    ts = [.ident name,.semicolon] := by
  unfold parseTokens at h
  split at h
  · rename_i commands hc
    obtain rfl : commands = [.mk name .empty none] := by simpa using h
    unfold parseCommands at hc
    split at hc
    · simp at hc
    · split at hc
      · rename_i a rest ha
        obtain ⟨⟨commands,last⟩,hp,he⟩ := Option.map_eq_some_iff.mp hc
        simp only [Prod.mk.injEq,List.cons.injEq,Command.mk.injEq,and_true] at he
        obtain ⟨⟨⟨rfl,rfl⟩,rfl⟩,rfl⟩ := he
        have hrest := parseArguments_empty ha
        have hlast := parseCommands_nil hp
        rw [← hrest,← hlast]
      · split at hc
        · obtain ⟨p,-,hp⟩ := Option.map_eq_some_iff.mp hc
          simp at hp
        · simp at hc
      · simp at hc
    · simp at hc
  · simp at h

end Parsing

end JustMail.Foundation.Sieve
