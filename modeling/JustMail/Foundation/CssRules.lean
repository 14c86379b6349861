import JustMail.Foundation.CssTokens

/-! The rules of CSS Syntax over its tokens: a stylesheet is a list of rules, and the block of
a qualified rule a list of declarations. Component values stand as the tokens they are made of. -/
namespace JustMail.Foundation.Css

section Components

/-- The brackets that are open behind a token; only the innermost one can be closed. -/
def nest (stack : List Bracket) (t : Token) : List Bracket :=
  match t.kind with
  | .opening b => b :: stack
  | .word .function => .round :: stack
  | .closing b => if stack.head? = some b then stack.tail else stack
  | _ => stack

/-- Component values up to a token of the kind that stands in none of them. -/
def untilTop (stop : TokenKind) : List Bracket → List Token → List Token × List Token
  | _, [] => ([],[])
  | stack, t :: ts =>
    if stack = [] ∧ t.kind = stop then ([],t :: ts)
    else
      let next := untilTop stop (nest stack t) ts
      (t :: next.1,next.2)

def Token.isBlank (t : Token) : Bool := t.kind == .blank

def trimBlanks (ts : List Token) : List Token := (ts.dropWhile Token.isBlank).rdropWhile Token.isBlank

theorem untilTop_append (stop : TokenKind) (stack : List Bracket) (ts : List Token) :
    (untilTop stop stack ts).1 ++ (untilTop stop stack ts).2 = ts := by
  induction ts generalizing stack with
  | nil => rfl
  | cons t ts ih =>
    rw [untilTop]
    split
    · rfl
    · exact congrArg (t :: ·) (ih _)

theorem untilTop_length (stop : TokenKind) (stack : List Bracket) (ts : List Token) :
    (untilTop stop stack ts).2.length ≤ ts.length := by
  have hlength := congrArg List.length (untilTop_append stop stack ts)
  rw [List.length_append] at hlength
  omega

variable {stop : TokenKind} {stack : List Bracket} {t : Token} {ts us : List Token}

theorem untilTop_stop (h : t.kind = stop) (ts : List Token) : untilTop stop [] (t :: ts) = ([],t :: ts) := if_pos ⟨rfl,h⟩

/-- Tokens of other kinds are taken, and the brackets they leave open count for the rest. -/
theorem untilTop_pass (h : ∀ t ∈ ts, t.kind ≠ stop) (stack : List Bracket) (us : List Token) :
    untilTop stop stack (ts ++ us) =
      (ts ++ (untilTop stop (ts.foldl nest stack) us).1,(untilTop stop (ts.foldl nest stack) us).2) := by
  induction ts generalizing stack with
  | nil => rfl
  | cons t ts ih =>
    have ht : ¬ (stack = [] ∧ t.kind = stop) := fun h' => h t List.mem_cons_self h'.2
    rw [List.cons_append,untilTop,if_neg ht]
    dsimp only
    rw [ih (fun t ht => h t (List.mem_cons_of_mem _ ht))]
    rfl

theorem untilTop_rest (stop : TokenKind) (stack : List Bracket) (ts : List Token) :
    ∀ t ∈ (untilTop stop stack ts).2.head?, t.kind = stop := by
  induction ts generalizing stack with
  | nil => exact fun t ht => absurd ht (by simp [untilTop])
  | cons t ts ih =>
    rw [untilTop]
    split
    · rename_i h
      rintro t' ⟨⟩
      exact h.2
    · exact ih _

end Components

structure Declaration where
  name : JsString
  value : List Token
  important : Bool
  deriving DecidableEq

structure AtRule where
  name : JsString
  prelude : List Token
  block : Option (List Token)
  deriving DecidableEq

inductive Item where
  | declaration (d : Declaration)
  | atRule (r : AtRule)
  deriving DecidableEq

inductive Rule where
  | qualified (prelude block : List Token)
  | atRule (r : AtRule)
  deriving DecidableEq

def Token.name (t : Token) : JsString := unescape 0 t.text

def simpleBlock (ts : List Token) : List Token × List Token :=
  let content := untilTop (.closing .curly) [] ts
  (content.1,content.2.tail)

/-- An at-rule ends with a semicolon or with its block. -/
def atRule (t : Token) (ts : List Token) : AtRule × List Token :=
  let upToSemicolon := untilTop .semicolon [] ts
  let upToBlock := untilTop (.opening .curly) [] ts
  if upToSemicolon.1.length < upToBlock.1.length then
    (⟨t.name.tail,upToSemicolon.1,none⟩,upToSemicolon.2.tail)
  else
    match upToBlock.2 with
    | [] => (⟨t.name.tail,upToBlock.1,none⟩,[])
    | _ :: rest => (⟨t.name.tail,upToBlock.1,some (simpleBlock rest).1⟩,(simpleBlock rest).2)

def isBang (t : Token) : Bool := t == ⟨.word .delim,[unit '!']⟩

/-- `!important` at the end of a value, in no bracket. -/
def splitImportant (ts : List Token) : List Token × Bool :=
  let value := (ts.rdropWhile fun t => !isBang t).dropLast
  match (ts.filter fun t => !t.isBlank).reverse with
  | last :: bang :: _ =>
    if isBang bang ∧ last.kind = .word .ident ∧ last.name.map asciiLower = js "important" ∧ value.foldl nest [] = [] then
      (value.rdropWhile Token.isBlank,true)
    else (ts,false)
  | _ => (ts,false)

/-- A declaration of a name and what is behind it, if it has a colon. -/
def declaration (name : Token) (ts : List Token) : Option Declaration :=
  match ts.dropWhile Token.isBlank with
  | colon :: value =>
    if colon.kind = .colon then
      let split := splitImportant (trimBlanks value)
      some ⟨name.name,split.1,split.2⟩
    else none
  | [] => none

theorem simpleBlock_length (ts : List Token) : (simpleBlock ts).2.length ≤ ts.length := by
  have hcontent := untilTop_length (.closing .curly) [] ts
  rw [simpleBlock,List.length_tail]
  omega

theorem atRule_length (t : Token) (ts : List Token) : (atRule t ts).2.length ≤ ts.length := by
  have hsemicolon := untilTop_length .semicolon [] ts
  have hblock := untilTop_length (.opening .curly) [] ts
  rw [atRule]
  split
  · rw [List.length_tail]
    omega
  · cases hrest : (untilTop (.opening .curly) [] ts).2 with
    | nil => exact Nat.zero_le _
    | cons c rest =>
      rw [hrest,List.length_cons] at hblock
      have hsimple := simpleBlock_length rest
      dsimp only
      omega

/-- The declarations and at-rules of a block. -/
def items : Consumer Token Item where
  step t ts :=
    if t.kind = .blank ∨ t.kind = .semicolon then (none,ts)
    else if t.kind = .word .atKeyword then (some (.atRule (atRule t ts).1),(atRule t ts).2)
    else if t.kind = .word .ident then
      ((declaration t (untilTop .semicolon [] ts).1).map .declaration,(untilTop .semicolon [] ts).2)
    else (none,(untilTop .semicolon (nest [] t) ts).2)
  shrinks t ts := by
    split
    · exact le_rfl
    split
    · exact atRule_length t ts
    split
    · exact untilTop_length .semicolon [] ts
    · exact untilTop_length .semicolon (nest [] t) ts

/-- The rules of a stylesheet. A qualified rule without a block is none. -/
def rules : Consumer Token Rule where
  step t ts :=
    if t.kind = .blank ∨ t.kind = .word .cdo ∨ t.kind = .word .cdc then (none,ts)
    else if t.kind = .word .atKeyword then (some (.atRule (atRule t ts).1),(atRule t ts).2)
    else
      let upToBlock := untilTop (.opening .curly) [] (t :: ts)
      match upToBlock.2 with
      | [] => (none,[])
      | _ :: rest => (some (.qualified upToBlock.1 (simpleBlock rest).1),(simpleBlock rest).2)
  shrinks t ts := by
    split
    · exact le_rfl
    split
    · exact atRule_length t ts
    · have hblock := untilTop_length (.opening .curly) [] (t :: ts)
      dsimp only
      cases hrest : (untilTop (.opening .curly) [] (t :: ts)).2 with
      | nil => exact Nat.zero_le _
      | cons c rest =>
        rw [hrest,List.length_cons,List.length_cons] at hblock
        have hsimple := simpleBlock_length rest
        dsimp only
        omega

/-- A rule of a stylesheet with its selector and what its block declares. -/
inductive SheetRule where
  | style (selector : List Token) (items : List Item)
  | atRule (r : AtRule)
  deriving DecidableEq

def Rule.read : Rule → SheetRule
  | .qualified prelude block => .style (trimBlanks prelude) (items.all block)
  | .atRule r => .atRule r

def parseStylesheet (text : JsString) : List SheetRule := (rules.all (tokens (preprocess text))).map Rule.read

/-- What may stand for any declared value, or for none: no token that went wrong, every bracket
in its place, and neither a semicolon nor an exclamation mark outside of all. -/
def isDeclarationValue : List Bracket → List Token → Bool
  | stack, [] => stack = []
  | stack, t :: ts =>
    t.kind != .word .badString && t.kind != .word .badUrl && (stack != [] || (t.kind != .semicolon && !isBang t)) &&
    (match t.kind with
      | .closing b => stack.head? == some b
      | _ => true) && isDeclarationValue (nest stack t) ts

section Reading
variable {t : Token} {ts us : List Token}

theorem items_skip (h : t.kind = .blank ∨ t.kind = .semicolon) (ts : List Token) : items.all (t :: ts) = items.all ts :=
  items.all_skip (if_pos h)

theorem items_ident (h : t.kind = .word .ident) (ts : List Token) :
    items.all (t :: ts) = ((declaration t (untilTop .semicolon [] ts).1).map Item.declaration).toList ++
      items.all (untilTop .semicolon [] ts).2 := by
  rw [items.all_cons]
  simp only [items,h]
  rfl

theorem rules_skip (h : t.kind = .blank) (ts : List Token) : rules.all (t :: ts) = rules.all ts :=
  rules.all_skip (if_pos (.inl h))

/-- What a value is trimmed of are blanks only. -/
theorem mem_trimBlanks (ht : t ∈ ts) (hkind : t.kind ≠ .blank) : t ∈ trimBlanks ts := by
  have hblank : t.isBlank = false := by
    rw [Token.isBlank,beq_eq_false_iff_ne]
    exact hkind
  have hstart : t ∈ ts.dropWhile Token.isBlank := by
    rw [← List.takeWhile_append_dropWhile (p := Token.isBlank) (l := ts),List.mem_append] at ht
    exact ht.resolve_left fun hmem => by simp [List.mem_takeWhile_imp hmem] at hblank
  have hreverse : t ∈ (ts.dropWhile Token.isBlank).reverse := List.mem_reverse.mpr hstart
  rw [← List.takeWhile_append_dropWhile (p := Token.isBlank) (l := (ts.dropWhile Token.isBlank).reverse),List.mem_append] at hreverse
  rw [trimBlanks,List.rdropWhile,List.mem_reverse]
  exact hreverse.resolve_left fun hmem => by simp [List.mem_takeWhile_imp hmem] at hblank

theorem mem_of_mem_trimBlanks (ht : t ∈ trimBlanks ts) : t ∈ ts :=
  (List.dropWhile_suffix _).subset ((List.rdropWhile_prefix _ _).subset ht)

/-- A value without an exclamation mark is not important. -/
theorem splitImportant_plain (h : ∀ t ∈ ts, isBang t = false) : splitImportant ts = (ts,false) := by
  unfold splitImportant
  split
  · rename_i last bang before hbefore
    rw [if_neg]
    rintro ⟨hbang,-⟩
    have hmem : bang ∈ ts.filter fun t => !t.isBlank := by
      rw [← List.mem_reverse,hbefore]
      simp
    rw [h bang (List.mem_of_mem_filter hmem)] at hbang
    cases hbang
  · rfl

theorem splitImportant_false (h : (splitImportant ts).2 = false) : (splitImportant ts).1 = ts := by
  unfold splitImportant at h ⊢
  dsimp only at h ⊢
  cases hbefore : (ts.filter fun t => !t.isBlank).reverse with
  | nil => rfl
  | cons last before =>
    cases before with
    | nil => rfl
    | cons bang before =>
      rw [hbefore] at h
      dsimp only at h ⊢
      split
      · rename_i hbang
        rw [if_pos hbang] at h
        cases h
      · rfl

theorem declaration_colon {colon : Token} (hcolon : colon.kind = .colon) (name : Token) (value : List Token) :
    declaration name (colon :: value) =
      some ⟨name.name,(splitImportant (trimBlanks value)).1,(splitImportant (trimBlanks value)).2⟩ := by
  have hblank : colon.isBlank = false := by
    rw [Token.isBlank,hcolon]
    rfl
  rw [declaration,List.dropWhile_cons_of_neg (by simp [hblank])]
  exact if_pos hcolon

/-- A well-formed value leaves no bracket open. -/
theorem foldl_nest_of_isDeclarationValue {stack : List Bracket} (h : isDeclarationValue stack ts = true) : ts.foldl nest stack = [] := by
  induction ts generalizing stack with
  | nil => exact of_decide_eq_true h
  | cons t ts ih =>
    rw [isDeclarationValue,Bool.and_eq_true] at h
    exact ih h.2

/-- Blanks in front make no difference to a value. -/
theorem isDeclarationValue_blank (ht : t.kind = .blank) (stack : List Bracket) (ts : List Token) :
    isDeclarationValue stack (t :: ts) = isDeclarationValue stack ts := by
  have hbang : isBang t = false := by
    rw [isBang,beq_eq_false_iff_ne]
    rintro rfl
    cases ht
  have hnest : nest stack t = stack := by simp only [nest,ht]
  rw [isDeclarationValue,hbang,hnest]
  simp [ht]

end Reading

end JustMail.Foundation.Css
