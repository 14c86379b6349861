import Mathlib.Algebra.Order.Field.Rat
import Mathlib.Data.Rat.Defs
import JustMail.Foundation.CodeUnits
import JustMail.Foundation.IpAddress
import JustMail.Foundation.Utf8Decoder

/-! JSON texts: their values, reading them as `JSON.parse` does, and writing them as
`JSON.stringify` does. -/
namespace JustMail.Foundation.JsonText

/-- Digits without a leading zero. -/
def isWhole (s : JsString) : Bool := !s.isEmpty && s.all isDigit && (s.head? != some (unit '0') || s.length == 1)

/-- A numeral as it is written. -/
structure Numeral where
  negative : Bool
  whole : JsString
  fraction : JsString
  exponent : Int
  isWhole : isWhole whole = true
  digits : fraction.all isDigit = true
  deriving DecidableEq

def Numeral.value (n : Numeral) : ℚ :=
  (if n.negative then -1 else 1) * digitsValue (n.whole ++ n.fraction) * 10 ^ (n.exponent - n.fraction.length)

/-- The members of an object stand in the order of the text, with every repetition of a name. -/
inductive Json
  | null
  | bool (b : Bool)
  | number (n : Numeral)
  | string (s : JsString)
  | array (items : List Json)
  | object (members : List (JsString × Json))

/-- A property of the value that `JSON.parse` makes: the last member of the name. -/
def Json.get? (name : JsString) : Json → Option Json
  | .object members => (members.reverse.find? fun m => m.1 = name).map (·.2)
  | _ => none

def isBlank (c : CodeUnit) : Bool := c == 32 || c == 9 || c == 10 || c == 13

/-- The rest behind a unit that must come next. -/
def expect (c : CodeUnit) : JsString → Option JsString
  | d :: s => if d = c then some s else none
  | [] => none

/-- The rest behind a unit that must come next after blanks. -/
def token (c : CodeUnit) (s : JsString) : Option JsString := expect c (s.dropWhile isBlank)

/-- What a letter stands for behind a backslash. -/
def escaped (c : CodeUnit) : Option CodeUnit :=
  if c = unit '"' ∨ c = unit '\\' ∨ c = unit '/' then some c
  else if c = unit 'b' then some 8
  else if c = unit 'f' then some 12
  else if c = unit 'n' then some 10
  else if c = unit 'r' then some 13
  else if c = unit 't' then some 9
  else none

/-- The rest of a string, with its closing quote. -/
def stringBody : JsString → Option (JsString × JsString)
  | [] => none
  | c :: s =>
    if c = unit '"' then some ([],s)
    else if c = unit '\\' then
      match s with
      | e :: s =>
        if e = unit 'u' then
          match s with
          | a :: b :: d :: f :: s => (hexGroup? [a,b,d,f]).bind fun u => (stringBody s).map fun p => (u :: p.1,p.2)
          | _ => none
        else (escaped e).bind fun u => (stringBody s).map fun p => (u :: p.1,p.2)
      | [] => none
    else if c < 32 then none
    else (stringBody s).map fun p => (c :: p.1,p.2)

def fractionPart (s : JsString) : Option (JsString × JsString) :=
  match expect (unit '.') s with
  | none => some ([],s)
  | some s => if (s.takeWhile isDigit).isEmpty then none else some (s.takeWhile isDigit,s.dropWhile isDigit)

def unsigned (s : JsString) : Option (Nat × JsString) :=
  if (s.takeWhile isDigit).isEmpty then none else some (digitsValue (s.takeWhile isDigit),s.dropWhile isDigit)

def exponentPart (s : JsString) : Option (Int × JsString) :=
  match (expect (unit 'e') s).or (expect (unit 'E') s) with
  | none => some (0,s)
  | some s =>
    match expect (unit '-') s with
    | some s => (unsigned s).map fun p => (-(p.1 : Int),p.2)
    | none => (unsigned ((expect (unit '+') s).getD s)).map fun p => ((p.1 : Int),p.2)

def readNumeral (s : JsString) : Option (Numeral × JsString) :=
  let negative := (expect (unit '-') s).isSome
  let s := (expect (unit '-') s).getD s
  if hwhole : isWhole (s.takeWhile isDigit) = true then
    (fractionPart (s.dropWhile isDigit)).bind fun f =>
      if hdigits : f.1.all isDigit = true then
        (exponentPart f.2).map fun e => (⟨negative,s.takeWhile isDigit,f.1,e.1,hwhole,hdigits⟩,e.2)
      else none
  else none

/-- A word of the language. -/
def word (w : JsString) (v : Json) (s : JsString) : Option (Json × JsString) :=
  if w.isPrefixOf s then some (v,s.drop w.length) else none

-- Every call reads a unit first or follows one that was read, so that the length is enough fuel.
mutual
def readValue : Nat → JsString → Option (Json × JsString)
  | 0,_ => none
  | fuel+1,s =>
    match token (unit '"') s with
    | some s => (stringBody s).map fun p => (.string p.1,p.2)
    | none =>
      match token (unit '[') s with
      | some s =>
        match token (unit ']') s with
        | some s => some (.array [],s)
        | none => (readItems fuel s).map fun p => (.array p.1,p.2)
      | none =>
        match token (unit '{') s with
        | some s =>
          match token (unit '}') s with
          | some s => some (.object [],s)
          | none => (readMembers fuel s).map fun p => (.object p.1,p.2)
        | none =>
          let s := s.dropWhile isBlank
          (word (js "null") .null s).or <| (word (js "true") (.bool true) s).or <|
            (word (js "false") (.bool false) s).or <| (readNumeral s).map fun p => (.number p.1,p.2)

/-- The items of an array, with its closing bracket. -/
def readItems : Nat → JsString → Option (List Json × JsString)
  | 0,_ => none
  | fuel+1,s =>
    (readValue fuel s).bind fun p =>
      match token (unit ',') p.2 with
      | some s => (readItems fuel s).map fun q => (p.1 :: q.1,q.2)
      | none => (token (unit ']') p.2).map fun s => ([p.1],s)

/-- The members of an object, with its closing brace. -/
def readMembers : Nat → JsString → Option (List (JsString × Json) × JsString)
  | 0,_ => none
  | fuel+1,s =>
    (token (unit '"') s).bind fun s => (stringBody s).bind fun name => (token (unit ':') name.2).bind fun s =>
      (readValue fuel s).bind fun p =>
        match token (unit ',') p.2 with
        | some s => (readMembers fuel s).map fun q => ((name.1,p.1) :: q.1,q.2)
        | none => (token (unit '}') p.2).map fun s => ([(name.1,p.1)],s)
end

/-- `JSON.parse(text)`. -/
def parse (text : JsString) : Option Json :=
  (readValue (text.length + 1) text).bind fun p => if p.2.all isBlank then some p.1 else none

/-- `\u` and the four digits of a unit. -/
def escapeUnit (c : CodeUnit) : JsString := unit '\\' :: unit 'u' :: hexFull c

/-- A unit that is no surrogate. -/
def quoteUnit (c : CodeUnit) : JsString :=
  if c = unit '"' ∨ c = unit '\\' then [unit '\\',c]
  else if c = 8 then js "\\b"
  else if c = 9 then js "\\t"
  else if c = 10 then js "\\n"
  else if c = 12 then js "\\f"
  else if c = 13 then js "\\r"
  else if c < 32 then escapeUnit c
  else [c]

/-- The content of a string; lone surrogates are escaped. -/
def quoteBody : JsString → JsString
  | [] => []
  | [c] => if isHigh c || isLow c then escapeUnit c else quoteUnit c
  | c :: d :: s =>
    if isHigh c then
      if isLow d then c :: d :: quoteBody s else escapeUnit c ++ quoteBody (d :: s)
    else (if isLow c then escapeUnit c else quoteUnit c) ++ quoteBody (d :: s)

def quote (s : JsString) : JsString := unit '"' :: (quoteBody s ++ [unit '"'])

/-- A number in the parts it has: a whole number is its digits. -/
def Numeral.render (n : Numeral) : JsString :=
  (if n.negative then [unit '-'] else []) ++ n.whole ++ (if n.fraction = [] then [] else unit '.' :: n.fraction) ++
    if n.exponent = 0 then [] else unit 'e' :: decimalInt n.exponent

mutual
/-- `JSON.stringify(value)`. -/
def stringify : Json → JsString
  | .null => js "null"
  | .bool true => js "true"
  | .bool false => js "false"
  | .number n => n.render
  | .string s => quote s
  | .array items => unit '[' :: (stringifyItems items ++ [unit ']'])
  | .object members => unit '{' :: (stringifyMembers members ++ [unit '}'])

def stringifyItems : List Json → JsString
  | [] => []
  | [v] => stringify v
  | v :: w :: vs => stringify v ++ unit ',' :: stringifyItems (w :: vs)

def stringifyMembers : List (JsString × Json) → JsString
  | [] => []
  | [(name,v)] => quote name ++ unit ':' :: stringify v
  | (name,v) :: m :: ms => quote name ++ unit ':' :: (stringify v ++ unit ',' :: stringifyMembers (m :: ms))
end

theorem isWhole_decimal (n : Nat) : isWhole (decimal n) = true := by
  simp only [isWhole,Bool.and_eq_true,Bool.or_eq_true,bne_iff_ne,beq_iff_eq,Bool.not_eq_true',List.isEmpty_eq_false_iff,
    List.all_eq_true]
  refine ⟨⟨decimal_ne_nil n,decimal_digits n⟩,?_⟩
  by_cases hn : n = 0
  · right
    rw [hn]
    rfl
  · exact .inl (decimal_head hn)

def natural (n : Nat) : Numeral := ⟨false,decimal n,[],0,isWhole_decimal n,rfl⟩

@[simp] theorem natural_value (n : Nat) : (natural n).value = n := by
  simp [Numeral.value,natural,digitsValue_decimal]

section Numerals
variable {c : CodeUnit} {s t : JsString}

theorem expect_none (h : ∀ d ∈ s.head?, d ≠ c) : expect c s = none := by
  cases s with
  | nil => rfl
  | cons d s => exact if_neg (h d rfl)

theorem expect_cons (c : CodeUnit) (s : JsString) : expect c (c :: s) = some s := if_pos rfl

/-- What comes next does not go on with a numeral. -/
def EndsNumeral (t : JsString) : Prop := ∀ c ∈ t.head?, isDigit c = false ∧ c ≠ unit '.' ∧ c ≠ unit 'e' ∧ c ≠ unit 'E'

private theorem head_digit (hs : ∀ c ∈ s, isDigit c = true) (hne : s ≠ []) (hc : isDigit c = false) (t : JsString) :
    expect c (s ++ t) = none := by
  obtain ⟨d,s,rfl⟩ := List.exists_cons_of_ne_nil hne
  refine expect_none fun e he => ?_
  obtain rfl : d = e := by simpa using he
  rintro rfl
  rw [hs d List.mem_cons_self] at hc
  cases hc

private theorem unsigned_decimal (n : Nat) (ht : EndsNumeral t) : unsigned (decimal n ++ t) = some (n,t) := by
  obtain ⟨htake,hdrop⟩ := span_run (decimal_digits n) fun c hc => (ht c hc).1
  rw [unsigned,htake,hdrop,if_neg (by simp [decimal_ne_nil]),digitsValue_decimal]

private theorem exponentPart_render (e : Int) (ht : EndsNumeral t) :
    exponentPart ((if e = 0 then [] else unit 'e' :: decimalInt e) ++ t) = some (e,t) := by
  by_cases he : e = 0
  · rw [if_pos he,List.nil_append,exponentPart,expect_none fun c hc => (ht c hc).2.2.1,
      expect_none fun c hc => (ht c hc).2.2.2,he]
    rfl
  · rw [if_neg he,List.cons_append,exponentPart,expect_cons,Option.some_or]
    dsimp only
    by_cases hneg : e < 0
    · have htext : decimalInt e ++ t = unit '-' :: (decimal e.natAbs ++ t) := by
        rw [decimalInt,if_pos hneg]
        rfl
      rw [htext,expect_cons]
      dsimp only
      rw [unsigned_decimal _ ht,Option.map_some]
      refine congrArg some (Prod.ext ?_ rfl)
      change -(e.natAbs : Int) = e
      omega
    · rw [decimalInt,if_neg hneg,head_digit (decimal_digits _) (decimal_ne_nil _) (by decide),
        head_digit (decimal_digits _) (decimal_ne_nil _) (by decide)]
      dsimp only [Option.getD_none]
      rw [unsigned_decimal _ ht,Option.map_some]
      refine congrArg some (Prod.ext ?_ rfl)
      change (e.natAbs : Int) = e
      omega

private theorem fractionPart_render (hs : s.all isDigit = true) (ht : ∀ c ∈ t.head?, isDigit c = false ∧ c ≠ unit '.') :
    fractionPart ((if s = [] then [] else unit '.' :: s) ++ t) = some (s,t) := by
  by_cases hempty : s = []
  · rw [if_pos hempty,List.nil_append,fractionPart,expect_none fun c hc => (ht c hc).2,hempty]
  · obtain ⟨htake,hdrop⟩ := span_run (List.all_eq_true.mp hs) fun c hc => (ht c hc).1
    rw [if_neg hempty,List.cons_append,fractionPart,expect_cons]
    dsimp only
    rw [htake,hdrop,if_neg (by simpa using hempty)]

theorem readNumeral_render (n : Numeral) (ht : EndsNumeral t) : readNumeral (n.render ++ t) = some (n,t) := by
  obtain ⟨negative,whole,fraction,exponent,hwhole,hfraction⟩ := n
  have hdigits : whole ≠ [] ∧ ∀ c ∈ whole, isDigit c = true := by
    simp only [isWhole,Bool.and_eq_true,Bool.not_eq_true',List.isEmpty_eq_false_iff,List.all_eq_true] at hwhole
    exact hwhole.1
  have hexponent : ∀ c ∈ ((if exponent = 0 then [] else unit 'e' :: decimalInt exponent) ++ t).head?,
      isDigit c = false ∧ c ≠ unit '.' := by
    intro c hc
    split at hc
    · exact ⟨(ht c hc).1,(ht c hc).2.1⟩
    · obtain rfl : unit 'e' = c := by simpa using hc
      decide
  have hfirst : ∀ c ∈ ((if fraction = [] then [] else unit '.' :: fraction) ++
      ((if exponent = 0 then [] else unit 'e' :: decimalInt exponent) ++ t)).head?, isDigit c = false := by
    intro c hc
    split at hc
    · exact (hexponent c hc).1
    · obtain rfl : unit '.' = c := by simpa using hc
      decide
  obtain ⟨htake,hdrop⟩ := span_run hdigits.2 hfirst
  have hbody : ∀ neg, (let s := whole ++ ((if fraction = [] then [] else unit '.' :: fraction) ++
      ((if exponent = 0 then [] else unit 'e' :: decimalInt exponent) ++ t))
      if hwhole : isWhole (s.takeWhile isDigit) = true then
        (fractionPart (s.dropWhile isDigit)).bind fun f =>
          if hdigits : f.1.all isDigit = true then
            (exponentPart f.2).map fun e => ((⟨neg,s.takeWhile isDigit,f.1,e.1,hwhole,hdigits⟩ : Numeral),e.2)
          else none
      else none) = some (⟨neg,whole,fraction,exponent,hwhole,hfraction⟩,t) := by
    intro neg
    dsimp only
    simp only [htake,hdrop,hwhole,dite_true,fractionPart_render hfraction hexponent,Option.bind_some,hfraction,
      exponentPart_render exponent ht,Option.map_some]
  cases negative with
  | true =>
    rw [readNumeral,Numeral.render,if_pos rfl]
    simp only [List.append_assoc,List.cons_append,List.nil_append,expect_cons,Option.isSome_some,Option.getD_some]
    exact hbody true
  | false =>
    rw [readNumeral,Numeral.render,if_neg Bool.false_ne_true]
    simp only [List.append_assoc,List.nil_append,head_digit hdigits.2 hdigits.1 (by decide : isDigit (unit '-') = false),
      Option.isSome_none,Option.getD_none]
    exact hbody false

end Numerals

section Strings
variable {c e u : CodeUnit} {s t : JsString}

private theorem stringBody_unit (hquote : c ≠ unit '"') (hescape : c ≠ unit '\\') (hc : ¬c < 32) (s : JsString) :
    stringBody (c :: s) = (stringBody s).map fun p => (c :: p.1,p.2) := by
  rw [stringBody.eq_def]
  dsimp only
  rw [if_neg hquote,if_neg hescape,if_neg hc]

private theorem stringBody_escaped (he : e ≠ unit 'u') (hu : escaped e = some u) (s : JsString) :
    stringBody (unit '\\' :: e :: s) = (stringBody s).map fun p => (u :: p.1,p.2) := by
  rw [stringBody.eq_def]
  dsimp only
  rw [if_neg (by decide),if_pos rfl,if_neg he,hu,Option.bind_some]

private theorem stringBody_escapeUnit (c : CodeUnit) (s : JsString) :
    stringBody (escapeUnit c ++ s) = (stringBody s).map fun p => (c :: p.1,p.2) := by
  have hdigits := hexGroup?_hexFull c
  rw [hexFull] at hdigits
  rw [escapeUnit,hexFull]
  simp only [List.cons_append,List.nil_append]
  rw [stringBody.eq_def]
  dsimp only
  rw [if_neg (by decide),if_pos rfl,if_pos rfl,hdigits,Option.bind_some]

private theorem stringBody_quoteUnit (c : CodeUnit) (s : JsString) :
    stringBody (quoteUnit c ++ s) = (stringBody s).map fun p => (c :: p.1,p.2) := by
  unfold quoteUnit
  split
  · rename_i hc
    rcases hc with rfl | rfl
    · exact stringBody_escaped (by decide) rfl s
    · exact stringBody_escaped (by decide) rfl s
  split
  · rename_i hc
    exact hc ▸ stringBody_escaped (by decide) rfl s
  split
  · rename_i hc
    exact hc ▸ stringBody_escaped (by decide) rfl s
  split
  · rename_i hc
    exact hc ▸ stringBody_escaped (by decide) rfl s
  split
  · rename_i hc
    exact hc ▸ stringBody_escaped (by decide) rfl s
  split
  · rename_i hc
    exact hc ▸ stringBody_escaped (by decide) rfl s
  split
  · exact stringBody_escapeUnit c s
  · rename_i hquote _ _ _ _ _ hc
    rw [not_or] at hquote
    exact stringBody_unit hquote.1 hquote.2 hc s

private theorem stringBody_surrogate (hc : isHigh c = true ∨ isLow c = true) (s : JsString) :
    stringBody (c :: s) = (stringBody s).map fun p => (c :: p.1,p.2) := by
  refine stringBody_unit ?_ ?_ ?_ s
  · rintro rfl
    exact absurd hc (by decide)
  · rintro rfl
    exact absurd hc (by decide)
  · intro hlt
    have hlt' := UInt16.lt_iff_toNat_lt.mp hlt
    change c.toNat < 32 at hlt'
    simp only [isHigh,isLow,Bool.and_eq_true,decide_eq_true_eq,UInt16.le_iff_toNat_le] at hc
    rcases hc with hc | hc
    · have hle : 0xD800 ≤ c.toNat := hc.1
      omega
    · have hle : 0xDC00 ≤ c.toNat := hc.1
      omega

theorem stringBody_quoteBody (s t : JsString) : stringBody (quoteBody s ++ unit '"' :: t) = some (s,t) := by
  have hend : stringBody (unit '"' :: t) = some ([],t) := by
    rw [stringBody.eq_def]
    exact if_pos rfl
  fun_induction quoteBody s with
  | case1 => exact hend
  | case2 c hc =>
    rw [stringBody_escapeUnit,hend]
    rfl
  | case3 c hc =>
    rw [stringBody_quoteUnit,hend]
    rfl
  | case4 c d s hc hd ih =>
    rw [List.cons_append,List.cons_append,stringBody_surrogate (.inl hc),stringBody_surrogate (.inr hd),ih]
    rfl
  | case5 c d s hc hd ih =>
    rw [List.append_assoc,stringBody_escapeUnit,ih]
    rfl
  | case6 c d s hc ih =>
    rw [List.append_assoc]
    split
    · rw [stringBody_escapeUnit,ih]
      rfl
    · rw [stringBody_quoteUnit,ih]
      rfl

end Strings

section RoundTrip
variable {c d : CodeUnit} {s t : JsString} {fuel : Nat}

private theorem token_cons (hc : isBlank c = false) (s : JsString) : token c (c :: s) = some s := by
  rw [token,List.dropWhile_cons_of_neg (by simp [hc]),expect_cons]

private theorem token_other (hd : isBlank d = false) (hne : d ≠ c) (s : JsString) : token c (d :: s) = none := by
  rw [token,List.dropWhile_cons_of_neg (by simp [hd]),expect,if_neg hne]

private theorem render_head (n : Numeral) : ∃ c s, n.render = c :: s ∧ (c = unit '-' ∨ isDigit c = true) := by
  have hwhole := n.isWhole
  simp only [isWhole,Bool.and_eq_true,Bool.not_eq_true',List.isEmpty_eq_false_iff,List.all_eq_true] at hwhole
  obtain ⟨d,ds,hds⟩ := List.exists_cons_of_ne_nil hwhole.1.1
  rw [Numeral.render,hds]
  cases n.negative with
  | true => exact ⟨_,_,rfl,.inl rfl⟩
  | false => exact ⟨_,_,rfl,.inr (hwhole.1.2 d (by rw [hds]; exact List.mem_cons_self))⟩

/-- A digit or a sign starts nothing else. -/
private theorem numeral_unit (hc : c = unit '-' ∨ isDigit c = true) : isBlank c = false ∧
    ∀ d ∈ js "\"[{]}ntf", c ≠ d := by
  rcases hc with rfl | hc
  · decide
  · exact of_isDigit (p := fun c => isBlank c = false ∧ ∀ d ∈ js "\"[{]}ntf", c ≠ d) (by decide) hc

private theorem stringify_head (v : Json) : ∃ c s, stringify v = c :: s ∧ isBlank c = false ∧ c ≠ unit ']' := by
  cases v with
  | null => exact ⟨_,_,rfl,by decide,by decide⟩
  | bool b =>
    cases b with
    | true => exact ⟨_,_,rfl,by decide,by decide⟩
    | false => exact ⟨_,_,rfl,by decide,by decide⟩
  | number n =>
    obtain ⟨c,s,hs,hc⟩ := render_head n
    obtain ⟨hblank,hne⟩ := numeral_unit hc
    exact ⟨c,s,hs,hblank,hne _ (by decide)⟩
  | string s => exact ⟨_,_,rfl,by decide,by decide⟩
  | array items => exact ⟨_,_,rfl,by decide,by decide⟩
  | object members => exact ⟨_,_,rfl,by decide,by decide⟩

private theorem readValue_quote (fuel : Nat) (s t : JsString) : readValue (fuel+1) (quote s ++ t) = some (.string s,t) := by
  have htext : quote s ++ t = unit '"' :: (quoteBody s ++ unit '"' :: t) := by simp [quote]
  rw [htext,readValue,token_cons (by decide)]
  dsimp only
  rw [stringBody_quoteBody]
  rfl

private theorem readValue_render (fuel : Nat) (n : Numeral) (ht : EndsNumeral t) :
    readValue (fuel+1) (n.render ++ t) = some (.number n,t) := by
  obtain ⟨c,s,hs,hc⟩ := render_head n
  obtain ⟨hblank,hne⟩ := numeral_unit hc
  have hread := readNumeral_render n ht
  rw [hs,List.cons_append] at hread ⊢
  have hword : ∀ (d : CodeUnit) (w : JsString) (v : Json), c ≠ d → word (d :: w) v (c :: (s ++ t)) = none := by
    intro d w v hd
    rw [word,if_neg]
    simp [List.isPrefixOf,Ne.symm hd]
  rw [readValue,token_other hblank (hne _ (by decide)),token_other hblank (hne _ (by decide)),
    token_other hblank (hne _ (by decide))]
  dsimp only
  rw [List.dropWhile_cons_of_neg (by simp [hblank]),hread]
  have hnull := hword _ (js "ull") .null (hne (unit 'n') (by decide))
  have htrue := hword _ (js "rue") (.bool true) (hne (unit 't') (by decide))
  have hfalse := hword _ (js "alse") (.bool false) (hne (unit 'f') (by decide))
  change ((word (js "null") .null _).or _) = _
  rw [show js "null" = unit 'n' :: js "ull" from rfl,hnull,show js "true" = unit 't' :: js "rue" from rfl,htrue,
    show js "false" = unit 'f' :: js "alse" from rfl,hfalse]
  rfl

-- The text of a value bounds the calls that reading it takes.
mutual
theorem readValue_stringify (v : Json) (fuel : Nat) (hfuel : (stringify v).length ≤ fuel) (t : JsString) (ht : EndsNumeral t) :
    readValue fuel (stringify v ++ t) = some (v,t) := by
  match v,fuel with
  | v,0 =>
    obtain ⟨c,s,hs,-⟩ := stringify_head v
    rw [hs] at hfuel
    exact absurd hfuel (Nat.not_succ_le_zero _)
  | .null,fuel+1 => rfl
  | .bool true,fuel+1 => rfl
  | .bool false,fuel+1 => rfl
  | .number n,fuel+1 => exact readValue_render fuel n ht
  | .string s,fuel+1 => exact readValue_quote fuel s t
  | .array [],fuel+1 => rfl
  | .array (v :: vs),fuel+1 =>
    have hlen : (stringifyItems (v :: vs)).length < fuel := by
      rw [stringify,List.length_cons,List.length_append,List.length_singleton] at hfuel
      omega
    have hitems := readItems_stringify v vs fuel hlen t
    obtain ⟨c,s,hs,hblank,hc⟩ : ∃ c s, stringifyItems (v :: vs) ++ unit ']' :: t = c :: s ∧ isBlank c = false ∧ c ≠ unit ']' := by
      obtain ⟨c,s,hs,hc⟩ := stringify_head v
      cases vs with
      | nil => exact ⟨c,_,by rw [stringifyItems,hs,List.cons_append],hc⟩
      | cons w vs => exact ⟨c,_,by rw [stringifyItems,hs,List.cons_append,List.cons_append],hc⟩
    have htext : stringify (.array (v :: vs)) ++ t = unit '[' :: (stringifyItems (v :: vs) ++ unit ']' :: t) := by
      simp [stringify]
    rw [htext,readValue,token_other (by decide) (by decide),token_cons (by decide)]
    dsimp only
    rw [hitems,hs,token_other hblank hc]
    rfl
  | .object [],fuel+1 => rfl
  | .object ((name,v) :: ms),fuel+1 =>
    have hlen : (stringifyMembers ((name,v) :: ms)).length < fuel := by
      rw [stringify,List.length_cons,List.length_append,List.length_singleton] at hfuel
      omega
    have hmembers := readMembers_stringify name v ms fuel hlen t
    obtain ⟨s,hs⟩ : ∃ s, stringifyMembers ((name,v) :: ms) ++ unit '}' :: t = unit '"' :: s := by
      cases ms with
      | nil => exact ⟨_,by rw [stringifyMembers,quote,List.cons_append,List.cons_append]⟩
      | cons m ms => exact ⟨_,by rw [stringifyMembers,quote,List.cons_append,List.cons_append]⟩
    have htext : stringify (.object ((name,v) :: ms)) ++ t = unit '{' :: (stringifyMembers ((name,v) :: ms) ++ unit '}' :: t) := by
      simp [stringify]
    rw [htext,readValue,token_other (by decide) (by decide),token_other (by decide) (by decide),token_cons (by decide)]
    dsimp only
    rw [hmembers,hs,token_other (by decide) (by decide)]
    rfl

theorem readItems_stringify (v : Json) (vs : List Json) (fuel : Nat) (hfuel : (stringifyItems (v :: vs)).length < fuel)
    (t : JsString) : readItems fuel (stringifyItems (v :: vs) ++ unit ']' :: t) = some (v :: vs,t) := by
  match fuel,vs with
  | 0,_ => exact absurd hfuel (Nat.not_lt_zero _)
  | fuel+1,[] =>
    rw [stringifyItems] at hfuel ⊢
    have hv := readValue_stringify v fuel (by omega) (unit ']' :: t) (by intro c hc; cases hc; decide)
    rw [readItems,hv,Option.bind_some]
    dsimp only
    rw [token_other (by decide) (by decide),token_cons (by decide)]
    rfl
  | fuel+1,w :: vs =>
    rw [stringifyItems,List.length_append,List.length_cons] at hfuel
    have hrest := readItems_stringify w vs fuel (by omega) t
    have hv := readValue_stringify v fuel (by omega) (unit ',' :: (stringifyItems (w :: vs) ++ unit ']' :: t))
      (by intro c hc; cases hc; decide)
    rw [stringifyItems,List.append_assoc,List.cons_append,readItems,hv,Option.bind_some]
    dsimp only
    rw [token_cons (by decide)]
    dsimp only
    rw [hrest]
    rfl

theorem readMembers_stringify (name : JsString) (v : Json) (ms : List (JsString × Json)) (fuel : Nat)
    (hfuel : (stringifyMembers ((name,v) :: ms)).length < fuel) (t : JsString) :
    readMembers fuel (stringifyMembers ((name,v) :: ms) ++ unit '}' :: t) = some ((name,v) :: ms,t) := by
  have hname : ∀ rest, token (unit '"') (quote name ++ rest) = some (quoteBody name ++ unit '"' :: rest) := by
    intro rest
    have htext : quote name ++ rest = unit '"' :: (quoteBody name ++ unit '"' :: rest) := by simp [quote]
    rw [htext,token_cons (by decide)]
  match fuel,ms with
  | 0,_ => exact absurd hfuel (Nat.not_lt_zero _)
  | fuel+1,[] =>
    rw [stringifyMembers,List.length_append,List.length_cons] at hfuel
    have hv := readValue_stringify v fuel (by omega) (unit '}' :: t) (by intro c hc; cases hc; decide)
    rw [stringifyMembers,List.append_assoc,List.cons_append,readMembers,hname,Option.bind_some,stringBody_quoteBody,
      Option.bind_some,token_cons (by decide),Option.bind_some,hv,Option.bind_some]
    dsimp only
    rw [token_other (by decide) (by decide),token_cons (by decide)]
    rfl
  | fuel+1,(other,w) :: ms =>
    rw [stringifyMembers,List.length_append,List.length_cons,List.length_append,List.length_cons] at hfuel
    have hrest := readMembers_stringify other w ms fuel (by omega) t
    have hv := readValue_stringify v fuel (by omega) (unit ',' :: (stringifyMembers ((other,w) :: ms) ++ unit '}' :: t))
      (by intro c hc; cases hc; decide)
    rw [stringifyMembers,List.append_assoc,List.cons_append,List.append_assoc,List.cons_append,readMembers,hname,
      Option.bind_some,stringBody_quoteBody,Option.bind_some,token_cons (by decide),Option.bind_some,hv,Option.bind_some]
    dsimp only
    rw [token_cons (by decide)]
    dsimp only
    rw [hrest]
    rfl
end

/-- A value comes back from its text. -/
theorem parse_stringify (v : Json) : parse (stringify v) = some v := by
  have hread := readValue_stringify v ((stringify v).length + 1) (Nat.le_succ _) [] (fun c hc => by cases hc)
  rw [List.append_nil] at hread
  rw [parse,hread]
  rfl

private theorem wellFormed_join (hs : wellFormed s = true) (ht : wellFormed t = true) : wellFormed (s ++ t) = true := by
  fun_induction wellFormed s with
  | case1 => exact ht
  | case2 c =>
    simp only [Bool.and_eq_true,Bool.not_eq_true'] at hs
    rw [List.singleton_append,wellFormed_plain hs.1,hs.2,ht]
    rfl
  | case3 c d s hc ih =>
    rw [Bool.and_eq_true] at hs
    rw [List.cons_append,List.cons_append,wellFormed_pair hc,hs.1,ih hs.2]
    rfl
  | case4 c d s hc ih =>
    rw [Bool.and_eq_true,Bool.not_eq_true'] at hs
    rw [List.cons_append,wellFormed_plain (by simpa using hc),hs.1,ih hs.2]
    rfl

private theorem wellFormed_cons_ascii (hc : c < 128) (ht : wellFormed t = true) : wellFormed (c :: t) = true :=
  wellFormed_join (wellFormed_ascii (List.forall_mem_singleton.mpr hc)) ht

private theorem escapeUnit_ascii (c : CodeUnit) : ∀ d ∈ escapeUnit c, d < 128 := by
  have hdigit : ∀ k < 16, hexUnit k < 128 := by decide
  have hc : c.toNat < 65536 := c.toNat_lt
  intro d hd
  simp only [escapeUnit,hexFull,List.mem_cons,List.not_mem_nil,or_false] at hd
  rcases hd with rfl | rfl | rfl | rfl | rfl | rfl
  · decide
  · decide
  · exact hdigit _ (by omega)
  · exact hdigit _ (by omega)
  · exact hdigit _ (by omega)
  · exact hdigit _ (by omega)

private theorem wellFormed_quoteUnit (hh : isHigh c = false) (hl : isLow c = false) : wellFormed (quoteUnit c) = true := by
  unfold quoteUnit
  split
  · rename_i hc
    rcases hc with rfl | rfl <;> rfl
  split
  · rfl
  split
  · rfl
  split
  · rfl
  split
  · rfl
  split
  · rfl
  split
  · exact wellFormed_ascii (escapeUnit_ascii c)
  · simp [wellFormed,hh,hl]

private theorem wellFormed_quoteBody (s : JsString) : wellFormed (quoteBody s) = true := by
  fun_induction quoteBody s with
  | case1 => rfl
  | case2 c hc => exact wellFormed_ascii (escapeUnit_ascii c)
  | case3 c hc =>
    rw [Bool.or_eq_true,not_or,Bool.not_eq_true,Bool.not_eq_true] at hc
    exact wellFormed_quoteUnit hc.1 hc.2
  | case4 c d s hc hd ih =>
    rw [wellFormed_pair hc,hd,ih]
    rfl
  | case5 c d s hc hd ih => exact wellFormed_join (wellFormed_ascii (escapeUnit_ascii c)) ih
  | case6 c d s hc ih =>
    rw [Bool.not_eq_true] at hc
    refine wellFormed_join ?_ ih
    split
    · exact wellFormed_ascii (escapeUnit_ascii c)
    · rename_i hd
      exact wellFormed_quoteUnit hc (by simpa using hd)

private theorem wellFormed_quote (s : JsString) : wellFormed (quote s) = true :=
  wellFormed_cons_ascii (by decide) (wellFormed_join (wellFormed_quoteBody s) rfl)

private theorem digits_ascii (hs : ∀ c ∈ s, isDigit c = true) : ∀ c ∈ s, c < 128 := by
  exact fun c hc => of_isDigit (p := (· < 128)) (by decide) (hs c hc)

private theorem wellFormed_render (n : Numeral) : wellFormed n.render = true := by
  have hwhole := n.isWhole
  simp only [isWhole,Bool.and_eq_true,List.all_eq_true] at hwhole
  have hexponent : ∀ c ∈ decimalInt n.exponent, c < 128 := by
    intro c hc
    rw [decimalInt] at hc
    split at hc
    · rcases List.mem_append.mp hc with hc | hc
      · obtain rfl : c = unit '-' := List.mem_singleton.mp hc
        decide
      · exact digits_ascii (decimal_digits _) c hc
    · exact digits_ascii (decimal_digits _) c hc
  refine wellFormed_ascii fun c hc => ?_
  rw [Numeral.render] at hc
  simp only [List.mem_append] at hc
  rcases hc with ((hc | hc) | hc) | hc
  · split at hc
    · obtain rfl : c = unit '-' := List.mem_singleton.mp hc
      decide
    · cases hc
  · exact digits_ascii hwhole.1.2 c hc
  · split at hc
    · cases hc
    · rcases List.mem_cons.mp hc with rfl | hc
      · decide
      · exact digits_ascii (List.all_eq_true.mp n.digits) c hc
  · split at hc
    · cases hc
    · rcases List.mem_cons.mp hc with rfl | hc
      · decide
      · exact hexponent c hc

mutual
/-- A text holds no lone surrogates, whatever the strings in the value are. -/
theorem wellFormed_stringify (v : Json) : wellFormed (stringify v) = true := by
  match v with
  | .null => rfl
  | .bool true => rfl
  | .bool false => rfl
  | .number n => exact wellFormed_render n
  | .string s => exact wellFormed_quote s
  | .array items =>
    exact wellFormed_cons_ascii (by decide) (wellFormed_join (wellFormed_stringifyItems items) rfl)
  | .object members =>
    exact wellFormed_cons_ascii (by decide) (wellFormed_join (wellFormed_stringifyMembers members) rfl)

theorem wellFormed_stringifyItems (vs : List Json) : wellFormed (stringifyItems vs) = true := by
  match vs with
  | [] => rfl
  | [v] => exact wellFormed_stringify v
  | v :: w :: vs =>
    exact wellFormed_join (wellFormed_stringify v) (wellFormed_cons_ascii (by decide) (wellFormed_stringifyItems (w :: vs)))

theorem wellFormed_stringifyMembers (ms : List (JsString × Json)) : wellFormed (stringifyMembers ms) = true := by
  match ms with
  | [] => rfl
  | [(name,v)] => exact wellFormed_join (wellFormed_quote name) (wellFormed_cons_ascii (by decide) (wellFormed_stringify v))
  | (name,v) :: m :: ms =>
    exact wellFormed_join (wellFormed_quote name) (wellFormed_cons_ascii (by decide) (wellFormed_join (wellFormed_stringify v)
      (wellFormed_cons_ascii (by decide) (wellFormed_stringifyMembers (m :: ms)))))
end

end RoundTrip

end JustMail.Foundation.JsonText
