import JustMail.Foundation.MimeStructure

/-! `assertStructureWithinLimits`: the check that a raw message passes before it is
parsed. Two regular expressions stand in for the MIME grammar. -/
namespace JustMail.MailParser
open Foundation

def MAX_PARTS : Nat := 200
def MAX_DEPTH : Nat := 8

/-- `raw.toString("latin1")`. -/
def latin1 (raw : List UInt8) : JsString := raw.map UInt8.toUInt16

/-- `text.split(/\r?\n/)`. -/
def textLines (text : JsString) : List JsString := (pairToLf 13 10 text).splitOn 10

/-- `[^";\r\n]` -/
def isCaptured (c : CodeUnit) : Bool := c != unit '"' && c != unit ';' && c != 13 && c != 10

/-- `([^";\r\n]+)"?`: the capture and what follows the match. -/
def capture (s : JsString) : Option (JsString × JsString) :=
  match s.takeWhile isCaptured with
  | [] => none
  | token =>
    match s.dropWhile isCaptured with
    | c :: rest => some (token,if c = unit '"' then rest else c :: rest)
    | [] => some (token,[])

/-- `"?([^";\r\n]+)"?` -/
def quotedCapture : JsString → Option (JsString × JsString)
  | [] => none
  | c :: s => if c = unit '"' then (capture s).or (capture (c :: s)) else capture (c :: s)

/-- `\s*"?([^";\r\n]+)"?`. Fewer blanks are tried where more of them lead to no match. -/
def spacedCapture : JsString → Option (JsString × JsString)
  | [] => none
  | c :: s => if isSpace c then (spacedCapture s).or (quotedCapture (c :: s)) else quotedCapture (c :: s)

/-- `/boundary\s*=\s*"?([^";\r\n]+)"?/i` at the start of the string. -/
def declaration (s : JsString) : Option (JsString × JsString) :=
  if (s.take 8).map asciiLower = js "boundary" then
    match (s.drop 8).dropWhile isSpace with
    | c :: rest => if c = unit '=' then spacedCapture rest else none
    | [] => none
  else none

/-- The loop over `declRe.exec(text)`: the search goes on after each match, of which
`skip` units are still ahead. -/
def declaredFrom : Nat → JsString → List JsString
  | _, [] => []
  | skip+1, _ :: s => declaredFrom skip s
  | 0, c :: s =>
    match declaration (c :: s) with
    | some (token,rest) => trim token :: declaredFrom (s.length - rest.length) s
    | none => declaredFrom 0 s

/-- The boundaries that the message declares. -/
def declared (text : JsString) : List JsString := declaredFrom 0 text

/-- What `.` does not match. -/
def isLineTerminator (c : CodeUnit) : Bool := c == 10 || c == 13 || c == 0x2028 || c == 0x2029

/-- `(--)?[ \t]*$`, and whether the group takes part. -/
def delimiterEnd (s : JsString) : Option Bool :=
  if js "--" <+: s ∧ (s.drop 2).all Mime.isBlank = true then some true
  else if s.all Mime.isBlank = true then some false
  else none

/-- `(.+?)(--)?[ \t]*$` with the units that the first group has already. -/
def lazyToken (token : JsString) : JsString → Option (JsString × Bool)
  | [] => none
  | c :: s =>
    if isLineTerminator c then none
    else
      match delimiterEnd s with
      | some isClose => some (token ++ [c],isClose)
      | none => lazyToken (token ++ [c]) s

/-- `/^--(.+?)(--)?[ \t]*$/`: the token and whether it is closed. -/
def delimiter (line : JsString) : Option (JsString × Bool) :=
  if js "--" <+: line then lazyToken [] (line.drop 2) else none

/-- The stack, from its last entry on, and the count of parts. -/
structure GuardState where
  stack : List JsString
  parts : Nat
  deriving DecidableEq

/-- `stack.length = stack.lastIndexOf(token)`, where that is not -1. -/
def closeToken (token : JsString) (stack : List JsString) : List JsString :=
  match stack.dropWhile (· ≠ token) with
  | [] => stack
  | _ :: below => below

inductive MimeLimitError where
  | depth
  | parts
  deriving DecidableEq

def MimeLimitError.message : MimeLimitError → JsString
  | .depth => js "MIME nesting depth exceeds limit of " ++ decimal MAX_DEPTH
  | .parts => js "MIME part count exceeds limit of " ++ decimal MAX_PARTS

def pushToken (token : JsString) (stack : List JsString) : Except MimeLimitError (List JsString) :=
  if stack.head? = some token then .ok stack
  else if MAX_DEPTH < stack.length + 1 then .error .depth
  else .ok (token :: stack)

/-- The body of the loop over the lines. -/
def guardLine (boundaries : List JsString) (g : GuardState) (line : JsString) : Except MimeLimitError GuardState :=
  match delimiter line with
  | none => .ok g
  | some (token,isClose) =>
    if !boundaries.contains token then .ok g
    else if isClose then .ok { g with stack := closeToken token g.stack }
    else do
      let stack ← pushToken token g.stack
      if MAX_PARTS < g.parts + 1 then .error .parts else .ok ⟨stack,g.parts + 1⟩

def assertStructureWithinLimits (raw : List UInt8) : Except MimeLimitError Unit :=
  let boundaries := declared (latin1 raw)
  if boundaries.isEmpty then .ok ()
  else ((textLines (latin1 raw)).foldlM (guardLine boundaries) ⟨[],0⟩).map fun _ => ()

end JustMail.MailParser
