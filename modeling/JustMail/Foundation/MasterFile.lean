import JustMail.Foundation.Decimal
import JustMail.Foundation.Folding
import JustMail.Foundation.IpAddress
import Mathlib.Algebra.GroupWithZero.Nat

/-! Master files of RFC 1035, section 5: entries, their items, and the records they
stand for. -/
namespace JustMail.Foundation.MasterFile
open JustMail.Foundation

section Lexing

/-- A unit of an item, and whether a backslash took its special meaning. -/
structure Glyph where
  escaped : Bool
  value : CodeUnit
deriving DecidableEq

structure Item where
  quoted : Bool
  glyphs : List Glyph
deriving DecidableEq

def plain (s : JsString) : List Glyph := s.map (⟨false,·⟩)
def Item.word (s : JsString) : Item := ⟨false,plain s⟩
def Item.text (i : Item) : JsString := i.glyphs.map (·.value)

def LF : CodeUnit := 10
def QUOTES : CodeUnit := unit '"'
def BACKSLASH : CodeUnit := unit '\\'

def isBlank (c : CodeUnit) : Bool := c = 32 ∨ c = 9 ∨ c = 13 ∨ c = LF

inductive Mode
  | gap
  | item (quoted : Bool) (read : List Glyph)
  | escape (quoted : Bool) (read : List Glyph)
  | code (quoted : Bool) (read : List Glyph) (digits : JsString)
  | comment

/-- The entry being read: its items so far and the open parentheses. -/
structure Line where
  items : List Item := []
  depth : Nat := 0
  mode : Mode := .gap

def Line.between (l : Line) (c : CodeUnit) : Option Line :=
  if isBlank c then some { l with mode := .gap }
  else if c = unit ';' then some { l with mode := .comment }
  else if c = unit '(' then some { l with mode := .gap, depth := l.depth + 1 }
  else if c = unit ')' then if l.depth = 0 then none else some { l with mode := .gap, depth := l.depth - 1 }
  else if c = QUOTES then some { l with mode := .item true [] }
  else if c = BACKSLASH then some { l with mode := .escape false [] }
  else some { l with mode := .item false [⟨false,c⟩] }

/-- The units that end an item without quotes. -/
def endsWord (c : CodeUnit) : Bool := isBlank c || c = unit ';' || c = unit '(' || c = unit ')'

def Line.push (l : Line) (i : Item) : Line := { l with items := l.items ++ [i], mode := .gap }

def Line.step (l : Line) (c : CodeUnit) : Option Line :=
  match l.mode with
  | .gap => l.between c
  | .item false read =>
    if endsWord c then (l.push ⟨false,read⟩).between c
    else if c = BACKSLASH then some { l with mode := .escape false read }
    else some { l with mode := .item false (read ++ [⟨false,c⟩]) }
  | .item true read =>
    if c = QUOTES then some (l.push ⟨true,read⟩)
    else if c = BACKSLASH then some { l with mode := .escape true read }
    else if c = LF then none
    else some { l with mode := .item true (read ++ [⟨false,c⟩]) }
  | .escape quoted read =>
    if isDigit c then some { l with mode := .code quoted read [c] }
    else if c = LF then none
    else some { l with mode := .item quoted (read ++ [⟨true,c⟩]) }
  | .code quoted read digits =>
    if ¬isDigit c then none
    else if digits.length < 2 then some { l with mode := .code quoted read (digits ++ [c]) }
    else if digitsValue (digits ++ [c]) ≤ 255 then
      some { l with mode := .item quoted (read ++ [⟨true,(digitsValue (digits ++ [c])).toUInt16⟩]) }
    else none
  | .comment => if c = LF then some { l with mode := .gap } else some l

section Steps
variable (items : List Item) (depth : Nat) (read : List Glyph) (c : CodeUnit)

theorem step_gap : (Line.mk items depth .gap).step c = (Line.mk items depth .gap).between c := rfl

theorem step_word : (Line.mk items depth (.item false read)).step c =
    if endsWord c then (Line.mk (items ++ [⟨false,read⟩]) depth .gap).between c
    else if c = BACKSLASH then some ⟨items,depth,.escape false read⟩
    else some ⟨items,depth,.item false (read ++ [⟨false,c⟩])⟩ := rfl

theorem step_string : (Line.mk items depth (.item true read)).step c =
    if c = QUOTES then some ⟨items ++ [⟨true,read⟩],depth,.gap⟩
    else if c = BACKSLASH then some ⟨items,depth,.escape true read⟩
    else if c = LF then none
    else some ⟨items,depth,.item true (read ++ [⟨false,c⟩])⟩ := rfl

theorem step_escape (quoted : Bool) : (Line.mk items depth (.escape quoted read)).step c =
    if isDigit c then some ⟨items,depth,.code quoted read [c]⟩
    else if c = LF then none
    else some ⟨items,depth,.item quoted (read ++ [⟨true,c⟩])⟩ := rfl

theorem step_comment : (Line.mk items depth .comment).step c =
    if c = LF then some ⟨items,depth,.gap⟩ else some ⟨items,depth,.comment⟩ := rfl

end Steps

def Line.run (l : Line) : JsString → Option Line
  | [] => some l
  | c :: s => (l.step c).bind (run · s)

/-- The items of an entry that ends here. -/
def Line.close (l : Line) : Option (List Item) :=
  if l.depth ≠ 0 then none
  else match l.mode with
    | .gap | .comment => some l.items
    | .item false read => some (l.items ++ [⟨false,read⟩])
    | _ => none

/-- An entry: whether it starts with a blank, and its items. -/
structure Entry where
  blank : Bool
  items : List Item

def entryOf (blank : Bool) (items : List Item) : List Entry := if items = [] then [] else [⟨blank,items⟩]

def startsBlank (s : JsString) : Bool := s.head?.any isBlank

def readLines (blank : Bool) (l : Line) : JsString → Option (List Entry)
  | [] => l.close.map (entryOf blank)
  | c :: s =>
    match if c = LF then l.close else none with
    | some items => (readLines (startsBlank s) {} s).map (entryOf blank items ++ ·)
    | none => (l.step c).bind fun l' => readLines blank l' s

def readEntries (s : JsString) : Option (List Entry) := readLines (startsBlank s) {} s

end Lexing

/-- An absolute domain name by its labels. -/
abbrev Name := List JsString

/-- What the data of a record stands for. Types without a case of their own keep their items. -/
inductive Rdata
  | a (address : Ipv4)
  | aaaa (address : Ipv6)
  | cname (target : Name)
  | mx (preference : Nat) (exchange : Name)
  | txt (strings : List JsString)
  | caa (flags : Nat) (tag value : JsString)
  | items (items : List Item)

structure Record where
  owner : Name
  ttl : Nat
  class' : JsString
  type : JsString
  rdata : Rdata

/-- What earlier entries set for later ones. -/
structure Context where
  origin : Option Name := none
  owner : Option Name := none
  ttl : Option Nat := none
  class' : Option JsString := none

def dot : Glyph := ⟨false,unit '.'⟩

def isLabel (label : List Glyph) : Bool := 1 ≤ label.length ∧ label.length ≤ 63

def fits (n : Name) : Bool := (n.map (·.length + 1)).sum + 1 ≤ 255

/-- A domain name, which without a dot at its end goes on with the origin. -/
def readName (origin : Option Name) (i : Item) : Option Name :=
  if i.quoted ∨ i.glyphs = [] then none
  else if i.glyphs = plain (js "@") then origin
  else if i.glyphs = [dot] then some []
  else
    let labels := i.glyphs.splitOn dot
    let relative := labels.getLast? ≠ some []
    let own := if relative then labels else labels.dropLast
    if own.all isLabel then
      ((if relative then origin else some []).map ((own.map (·.map (·.value))) ++ ·)).filter fits
    else none

/-- The text of an item without quotes and escapes. -/
def Item.bare (i : Item) : Option JsString := if i = Item.word i.text then some i.text else none

def readNumber (i : Item) : Option Nat :=
  i.bare.bind fun s => if s ≠ [] ∧ s.all isDigit then some (digitsValue s) else none

def classes : List JsString := ["IN","CS","CH","HS"].map js

def readClass (i : Item) : Option JsString := (i.bare.map (·.map asciiUpper)).filter (· ∈ classes)

/-- The optional TTL and class, in either order. -/
def readFields (ttl : Option Nat) (class' : Option JsString) : List Item → Option Nat × Option JsString × List Item
  | [] => (ttl,class',[])
  | i :: rest =>
    match ttl,readNumber i with
    | none,some n => readFields (some n) class' rest
    | _,_ =>
      match class',readClass i with
      | none,some c => readFields ttl (some c) rest
      | _,_ => (ttl,class',i :: rest)

def readStrings (items : List Item) : Option (List JsString) :=
  if items ≠ [] ∧ items.all (fun i => i.glyphs.length ≤ 255) then some (items.map Item.text) else none

def readRdata (origin : Option Name) (type : JsString) (items : List Item) : Option Rdata :=
  if type = js "A" then
    match items with
    | [i] => (i.bare.bind parseIpv4).map .a
    | _ => none
  else if type = js "AAAA" then
    match items with
    | [i] => (i.bare.bind parseIpv6).map .aaaa
    | _ => none
  else if type = js "CNAME" then
    match items with
    | [i] => (readName origin i).map .cname
    | _ => none
  else if type = js "MX" then
    match items with
    | [p,i] => (readNumber p).bind fun preference => (readName origin i).map (.mx preference)
    | _ => none
  else if type = js "TXT" then (readStrings items).map .txt
  else if type = js "CAA" then
    match items with
    | [f,t,v] => (readNumber f).bind fun flags => t.bare.map fun tag => .caa flags tag v.text
    | _ => none
  else some (.items items)

/-- The part of an entry behind its owner. -/
def readRecord (context : Context) (owner : Name) (items : List Item) : Option (Context × Record) :=
  match readFields none none items with
  | (ttl,class',type :: data) => do
    let t := (← type.bare).map asciiUpper
    let n ← ttl <|> context.ttl
    let c ← class' <|> context.class'
    let rdata ← readRdata context.origin t data
    some ({ context with owner := some owner, ttl := some n, class' := some c },⟨owner,n,c,t,rdata⟩)
  | _ => none

/-- One entry: a directive that sets the origin, or a record. -/
def readEntry (context : Context) (e : Entry) : Option (Context × List Record) :=
  if e.blank then
    context.owner.bind fun owner => (readRecord context owner e.items).map fun p => (p.1,[p.2])
  else match e.items with
    | [] => none
    | i :: rest =>
      if i = Item.word (js "$ORIGIN") then
        match rest with
        | [n] => (readName context.origin n).map fun origin => ({ context with origin := some origin },[])
        | _ => none
      else (readName context.origin i).bind fun owner =>
        (readRecord context owner rest).map fun p => (p.1,[p.2])

def readAll (context : Context) : List Entry → Option (List Record)
  | [] => some []
  | e :: es => (readEntry context e).bind fun p => (readAll p.1 es).map (p.2 ++ ·)

/-- The records of a file, read from an origin when its names need one. -/
def readZone (origin : Option Name) (s : JsString) : Option (List Record) :=
  (readEntries s).bind (readAll { origin := origin })

/-- A unit that means itself wherever it stands in an item without quotes. -/
def ordinary (c : CodeUnit) : Bool := !endsWord c && c != BACKSLASH

/-- A text that is one item as it stands. -/
def IsWord (s : JsString) : Prop := s ≠ [] ∧ (∀ c ∈ s, ordinary c = true) ∧ s.head? ≠ some QUOTES

instance : DecidablePred IsWord := fun _ => inferInstanceAs (Decidable (_ ∧ _ ∧ _))

/-- The name that a text writes in full, with or without its last dot. -/
def nameOf (s : JsString) : Option Name :=
  if IsWord s ∧ s ≠ js "@" then readName (some []) (Item.word s) else none

/-- The data that a text on one line writes for a type. -/
def contentOf (type s : JsString) : Option Rdata :=
  if LF ∈ s then none else ((Line.run {} s).bind Line.close).bind (readRdata none type)

def escapeQuotes (s : JsString) : JsString := replaceUnit QUOTES [BACKSLASH,QUOTES] s

def Item.string (s : JsString) : Item := ⟨true,s.map fun c => ⟨c = QUOTES,c⟩⟩

section Runs
variable {l l' : Line} {s t : JsString} {items : List Item}

theorem run_append (l : Line) (s t : JsString) : l.run (s ++ t) = (l.run s).bind (·.run t) := by
  induction s generalizing l with
  | nil => rfl
  | cons c s ih =>
    rw [List.cons_append,Line.run,Line.run]
    cases l.step c with
    | none => rfl
    | some l' => exact ih l'

theorem run_append_of (hs : l.run s = some l') (t : JsString) : l.run (s ++ t) = l'.run t := by
  rw [run_append,hs]
  rfl

/-- Within a line the file's reader does what the line's does. -/
theorem readLines_of_run (hs : LF ∉ s) (hrun : l.run s = some l') (blank : Bool) (t : JsString) :
    readLines blank l (s ++ t) = readLines blank l' t := by
  induction s generalizing l with
  | nil =>
    cases hrun
    rfl
  | cons c s ih =>
    have hc : c ≠ LF := fun h => hs (by simp [h])
    rw [Line.run] at hrun
    obtain ⟨next,hstep,hnext⟩ := Option.bind_eq_some_iff.mp hrun
    rw [List.cons_append,readLines,if_neg hc,hstep]
    exact ih (fun h => hs (List.mem_cons_of_mem _ h)) hnext

/-- A line by itself, and the lines behind it. -/
theorem readEntries_line (hs : LF ∉ s) (hrun : Line.run {} s = some l) (hclose : l.close = some items) (t : JsString) :
    readEntries (s ++ LF :: t) = (readEntries t).map (entryOf (startsBlank (s ++ LF :: t)) items ++ ·) := by
  rw [readEntries,readLines_of_run hs hrun,readLines,if_pos rfl,hclose]
  rfl

/-- Items already read stand before those still to come. -/
def Line.behind (l : Line) (items : List Item) : Line := { l with items := items ++ l.items }

private theorem between_behind (l : Line) (items : List Item) (c : CodeUnit) :
    (l.behind items).between c = (l.between c).map (·.behind items) := by
  obtain ⟨own,depth,mode⟩ := l
  cases depth <;> (simp only [Line.between,Line.behind]; split_ifs <;> rfl)

private theorem step_behind (l : Line) (items : List Item) (c : CodeUnit) :
    (l.behind items).step c = (l.step c).map (·.behind items) := by
  obtain ⟨own,depth,mode⟩ := l
  cases mode with
  | gap => exact between_behind ⟨own,depth,.gap⟩ items c
  | item quoted read =>
    cases quoted with
    | false =>
      have hpush : (Line.mk (items ++ own) depth (.item false read)).push ⟨false,read⟩ =
          ((Line.mk own depth (.item false read)).push ⟨false,read⟩).behind items := by
        simp [Line.push,Line.behind]
      simp only [Line.step,Line.behind]
      rw [hpush,between_behind]
      split_ifs <;> rfl
    | true =>
      simp only [Line.step,Line.behind,Line.push]
      split_ifs <;> simp
  | escape quoted read =>
    simp only [Line.step,Line.behind]
    split_ifs <;> rfl
  | code quoted read digits =>
    simp only [Line.step,Line.behind]
    split_ifs <;> rfl
  | comment =>
    simp only [Line.step,Line.behind]
    split_ifs <;> rfl

theorem run_behind (l : Line) (items : List Item) (s : JsString) :
    (l.behind items).run s = (l.run s).map (·.behind items) := by
  induction s generalizing l with
  | nil => rfl
  | cons c s ih =>
    rw [Line.run,Line.run,step_behind]
    cases l.step c with
    | none => rfl
    | some l' => exact ih l'

theorem close_behind (l : Line) (items : List Item) : (l.behind items).close = l.close.map (items ++ ·) := by
  obtain ⟨own,depth,mode⟩ := l
  by_cases hdepth : depth = 0
  · cases mode with
    | item quoted read => cases quoted <;> simp [Line.close,Line.behind,hdepth]
    | _ => simp [Line.close,Line.behind,hdepth]
  · simp [Line.close,Line.behind,hdepth]

end Runs

section Words
variable {items : List Item} {depth : Nat} {c sep : CodeUnit} {w s : JsString} {read : List Glyph}

theorem not_endsWord (h : ordinary c = true) : endsWord c = false := by
  rw [ordinary,Bool.and_eq_true,Bool.not_eq_true'] at h
  exact h.1

theorem ne_backslash (h : ordinary c = true) : c ≠ BACKSLASH := by
  rw [ordinary,Bool.and_eq_true,bne_iff_ne] at h
  exact h.2

private theorem between_ordinary (h : ordinary c = true) (hq : c ≠ QUOTES) (l : Line) :
    l.between c = some { l with mode := .item false [⟨false,c⟩] } := by
  have hends := not_endsWord h
  simp only [endsWord,Bool.or_eq_false_iff,decide_eq_false_iff_not] at hends
  obtain ⟨⟨⟨hblank,hsemi⟩,hopen⟩,hclose⟩ := hends
  rw [Line.between,if_neg (by simp [hblank]),if_neg hsemi,if_neg hopen,if_neg hclose,if_neg hq,if_neg (ne_backslash h)]

private theorem run_rest (hw : ∀ c ∈ w, ordinary c = true) :
    (Line.mk items depth (.item false read)).run w = some ⟨items,depth,.item false (read ++ plain w)⟩ := by
  induction w generalizing read with
  | nil => simp [Line.run,plain]
  | cons c w ih =>
    have hc := hw c List.mem_cons_self
    have hstep : (Line.mk items depth (.item false read)).step c =
        some ⟨items,depth,.item false (read ++ [⟨false,c⟩])⟩ := by
      rw [step_word,not_endsWord hc,if_neg Bool.false_ne_true,if_neg (ne_backslash hc)]
    rw [Line.run,hstep,Option.bind_some,ih fun d hd => hw d (List.mem_cons_of_mem _ hd)]
    simp [plain]

theorem run_word (hw : IsWord w) : (Line.mk items depth .gap).run w = some ⟨items,depth,.item false (plain w)⟩ := by
  obtain ⟨hne,hall,hquote⟩ := hw
  cases w with
  | nil => exact absurd rfl hne
  | cons c w =>
    rw [Line.run,step_gap,between_ordinary (hall c List.mem_cons_self) (by simpa using hquote),Option.bind_some,
      run_rest fun d hd => hall d (List.mem_cons_of_mem _ hd)]
    rfl

/-- A blank ends a word, and is nothing between items. -/
theorem step_blank_word (hsep : isBlank sep = true) :
    (Line.mk items depth (.item false read)).step sep = some ⟨items ++ [⟨false,read⟩],depth,.gap⟩ := by
  have hends : endsWord sep = true := by simp [endsWord,hsep]
  rw [step_word,if_pos hends,Line.between,if_pos hsep]

theorem step_blank_gap (hsep : isBlank sep = true) : (Line.mk items depth .gap).step sep = some ⟨items,depth,.gap⟩ := by
  rw [step_gap,Line.between,if_pos hsep]

theorem run_word_blank (hw : IsWord w) (hsep : isBlank sep = true) :
    (Line.mk items depth .gap).run (w ++ [sep]) = some ⟨items ++ [Item.word w],depth,.gap⟩ := by
  rw [run_append_of (run_word hw),Line.run,step_blank_word hsep]
  rfl

theorem run_words {ws : List JsString} (hws : ∀ w ∈ ws, IsWord w) (hsep : isBlank sep = true) :
    (Line.mk items depth .gap).run (ws.flatMap (· ++ [sep])) = some ⟨items ++ ws.map Item.word,depth,.gap⟩ := by
  induction ws generalizing items with
  | nil => simp [Line.run]
  | cons w ws ih =>
    rw [List.flatMap_cons,run_append_of (run_word_blank (hws w List.mem_cons_self) hsep),
      ih fun v hv => hws v (List.mem_cons_of_mem _ hv)]
    simp

private theorem run_quoted (hslash : BACKSLASH ∉ s) (hlf : LF ∉ s) :
    (Line.mk items depth (.item true read)).run (escapeQuotes s) =
      some ⟨items,depth,.item true (read ++ s.map fun c => ⟨c = QUOTES,c⟩)⟩ := by
  have hescapable : isDigit QUOTES = false := by decide
  induction s generalizing read with
  | nil => simp [Line.run,escapeQuotes,replaceUnit]
  | cons c s ih =>
    have hrest := fun read => @ih read (fun h => hslash (List.mem_cons_of_mem _ h)) (fun h => hlf (List.mem_cons_of_mem _ h))
    by_cases hc : c = QUOTES
    · have hesc : escapeQuotes (c :: s) = BACKSLASH :: QUOTES :: escapeQuotes s := by
        simp [escapeQuotes,replaceUnit,hc]
      rw [hesc,Line.run,step_string,if_neg (by decide),if_pos rfl,Option.bind_some,Line.run,step_escape,hescapable,
        if_neg Bool.false_ne_true,if_neg (by decide),Option.bind_some,hrest]
      simp [hc]
    · have hesc : escapeQuotes (c :: s) = c :: escapeQuotes s := by
        simp [escapeQuotes,replaceUnit,hc]
      have hs : c ≠ BACKSLASH := fun h => hslash (by simp [h])
      have hl : c ≠ LF := fun h => hlf (by simp [h])
      rw [hesc,Line.run,step_string,if_neg hc,if_neg hs,if_neg hl,Option.bind_some,hrest]
      simp [hc]

theorem run_string (hslash : BACKSLASH ∉ s) (hlf : LF ∉ s) :
    (Line.mk items depth .gap).run (QUOTES :: escapeQuotes s ++ [QUOTES]) =
      some ⟨items ++ [Item.string s],depth,.gap⟩ := by
  have hopen : (Line.mk items depth .gap).step QUOTES = some ⟨items,depth,.item true []⟩ := by
    rw [step_gap,Line.between,if_neg (by decide),if_neg (by decide),if_neg (by decide),if_neg (by decide),if_pos rfl]
  rw [List.cons_append,Line.run,hopen,Option.bind_some,run_append_of (run_quoted hslash hlf),Line.run,
    step_string,if_pos rfl]
  rfl

theorem run_strings {ss : List JsString} (hslash : ∀ s ∈ ss, BACKSLASH ∉ s) (hlf : ∀ s ∈ ss, LF ∉ s)
    (hsep : isBlank sep = true) :
    (Line.mk items depth .gap).run ([sep].intercalate (ss.map fun s => QUOTES :: escapeQuotes s ++ [QUOTES])) =
      some ⟨items ++ ss.map Item.string,depth,.gap⟩ := by
  induction ss generalizing items with
  | nil => simp [Line.run]
  | cons s ss ih =>
    have hfirst := fun items => @run_string items depth s (hslash s List.mem_cons_self) (hlf s List.mem_cons_self)
    have hrest := fun items => @ih items (fun t ht => hslash t (List.mem_cons_of_mem _ ht))
      (fun t ht => hlf t (List.mem_cons_of_mem _ ht))
    by_cases hss : ss = []
    · subst hss
      simpa using hfirst items
    · rw [List.map_cons,List.intercalate_cons_of_ne_nil (by simpa using hss),List.append_assoc,
        run_append_of (hfirst items),List.singleton_append,Line.run,step_blank_gap hsep,Option.bind_some,hrest]
      simp

end Words

section Lines
variable {line s : JsString} {entries : List Entry} {items : List Item}

/-- A line by itself is these entries, none or one. -/
def Reads (line : JsString) (entries : List Entry) : Prop :=
  LF ∉ line ∧ ∃ items, (Line.run {} line).bind Line.close = some items ∧
    entries = entryOf (startsBlank (line ++ [LF])) items

theorem readEntries_lines {lines : List JsString} {read : List (List Entry)} (h : List.Forall₂ Reads lines read) :
    readEntries (lines.flatMap (· ++ [LF])) = some read.flatten := by
  induction h with
  | nil => rfl
  | @cons line entries lines read hline _ ih =>
    obtain ⟨hlf,items,hrun,rfl⟩ := hline
    obtain ⟨l,hl,hclose⟩ := Option.bind_eq_some_iff.mp hrun
    have hstart : ∀ t, startsBlank (line ++ LF :: t) = startsBlank (line ++ [LF]) := by
      intro t
      cases line <;> rfl
    rw [List.flatMap_cons,List.append_assoc,List.singleton_append,readEntries_line hlf hl hclose,ih,hstart]
    rfl

private theorem run_comment (hs : LF ∉ s) : (Line.mk items 0 .comment).run s = some ⟨items,0,.comment⟩ := by
  induction s with
  | nil => rfl
  | cons c s ih =>
    have hc : c ≠ LF := fun h => hs (by simp [h])
    rw [Line.run,step_comment,if_neg hc,Option.bind_some,ih fun h => hs (List.mem_cons_of_mem _ h)]

theorem reads_comment (hs : LF ∉ s) : Reads (unit ';' :: s) [] := by
  have hsemi : LF ∉ unit ';' :: s := by
    rw [List.mem_cons,not_or]
    exact ⟨by decide,hs⟩
  have hopen : (Line.mk [] 0 .gap).step (unit ';') = some ⟨[],0,.comment⟩ := by
    rw [step_gap,Line.between,if_neg (by decide),if_pos rfl]
  refine ⟨hsemi,[],?_,rfl⟩
  rw [Line.run,hopen,Option.bind_some,run_comment hs]
  rfl

theorem reads_empty : Reads [] [] := ⟨List.not_mem_nil,[],rfl,rfl⟩

theorem not_startsBlank (hs : IsWord s) (t : JsString) : startsBlank (s ++ t) = false := by
  obtain ⟨hne,hall,-⟩ := hs
  cases s with
  | nil => exact absurd rfl hne
  | cons c s =>
    have hends := not_endsWord (hall c List.mem_cons_self)
    simp only [endsWord,Bool.or_eq_false_iff] at hends
    simpa [startsBlank] using hends.1.1.1

/-- Words at the start of a line, a blank behind each, and what the rest of the line is by itself. -/
theorem reads_words {w sep} {ws : List JsString} (hws : ∀ v ∈ w :: ws, IsWord v) (hsep : isBlank sep = true)
    (hlf : LF ≠ sep) (hs : LF ∉ s) (hrest : (Line.run {} s).bind Line.close = some items) :
    Reads ((w :: ws).flatMap (· ++ [sep]) ++ s) [⟨false,(w :: ws).map Item.word ++ items⟩] := by
  have hwords : LF ∉ (w :: ws).flatMap (· ++ [sep]) := by
    intro h
    obtain ⟨v,hv,hmem⟩ := List.mem_flatMap.mp h
    rcases List.mem_append.mp hmem with hmem | hmem
    · exact absurd ((hws v hv).2.1 LF hmem) (by decide)
    · exact hlf (List.mem_singleton.mp hmem)
  obtain ⟨l,hl,hclose⟩ := Option.bind_eq_some_iff.mp hrest
  refine ⟨fun h => (List.mem_append.mp h).elim hwords hs,(w :: ws).map Item.word ++ items,?_,?_⟩
  · rw [run_append_of (run_words hws hsep)]
    have hbehind : Line.mk ([] ++ (w :: ws).map Item.word) 0 .gap = Line.behind {} ((w :: ws).map Item.word) := by
      simp [Line.behind]
    rw [hbehind,run_behind,hl]
    change (l.behind _).close = _
    rw [close_behind,hclose]
    rfl
  · have hstart := not_startsBlank (hws w List.mem_cons_self) (sep :: (ws.flatMap (· ++ [sep]) ++ s ++ [LF]))
    rw [List.flatMap_cons]
    simp only [List.append_assoc,List.cons_append,List.nil_append] at hstart ⊢
    rw [hstart]
    rfl

end Lines

section Names
variable {s type : JsString} {n : Name}

/-- A name with its last dot. -/
def absolute (s : JsString) : JsString := if s.getLast? = some (unit '.') then s else s ++ [unit '.']

private theorem splitOn_snoc (g : List Glyph) : (g ++ [dot]).splitOn dot = g.splitOn dot ++ [[]] := by
  rw [List.splitOn_append_cons_self,List.splitOn_nil]

/-- The last label is empty only behind a dot. -/
private theorem getLast_splitOn {g : List Glyph} (hne : g ≠ []) (hdot : g.getLast? ≠ some dot) :
    (g.splitOn dot).getLast? ≠ some [] := by
  intro hlast
  obtain ⟨init,hinit⟩ : ∃ init, g.splitOn dot = init ++ [[]] :=
    ⟨_,(List.dropLast_append_getLast? _ hlast).symm⟩
  have hjoin : [dot].intercalate (g.splitOn dot) = g := List.intercalate_splitOn dot
  rw [hinit] at hjoin
  cases init with
  | nil => exact hne (by simpa using hjoin.symm)
  | cons label init =>
    apply hdot
    rw [← hjoin,intercalate_append _ (by simp) (by simp)]
    simp

theorem isWord_absolute (h : IsWord s) : IsWord (absolute s) := by
  rw [absolute]
  split
  · exact h
  · obtain ⟨hne,hall,hquote⟩ := h
    refine ⟨by simp,fun c hc => ?_,?_⟩
    · rcases List.mem_append.mp hc with hc | hc
      · exact hall c hc
      · rw [List.mem_singleton.mp hc]
        decide
    · rwa [List.head?_append_of_ne_nil _ hne]

theorem isWord_of_nameOf (h : nameOf s = some n) : IsWord s := by
  rw [nameOf] at h
  split at h
  · rename_i hs
    exact hs.1
  · cases h

private theorem plain_injective : Function.Injective plain :=
  List.map_injective_iff.mpr fun _ _ h => congrArg Glyph.value h

/-- The name is read alike from every origin once it has its last dot. -/
theorem readName_absolute (h : nameOf s = some n) (origin : Option Name) :
    readName origin (Item.word (absolute s)) = some n := by
  obtain ⟨hne,-,-⟩ := isWord_of_nameOf h
  rw [nameOf] at h
  split at h
  case isFalse => cases h
  case isTrue hs =>
  have hglyphs : plain s ≠ [] := by simpa [plain] using hne
  have hat : plain s ≠ plain (js "@") := fun he => hs.2 (plain_injective he)
  rw [readName,if_neg (by simpa [Item.word] using hglyphs),if_neg (by simpa [Item.word] using hat)] at h
  have hlastGlyph : (plain s).getLast? = some dot ↔ s.getLast? = some (unit '.') := by
    rw [plain,List.getLast?_map]
    cases s.getLast? <;> simp [dot]
  rw [absolute]
  split
  · rename_i hdot
    obtain ⟨init,hinit⟩ : ∃ init, plain s = init ++ [dot] :=
      ⟨_,(List.dropLast_append_getLast? _ (hlastGlyph.mpr hdot)).symm⟩
    rw [readName,if_neg (by simpa [Item.word] using hglyphs),if_neg (by simpa [Item.word] using hat)]
    simpa [Item.word,hinit,splitOn_snoc] using h
  · rename_i hdot
    have hrelative : ((plain s).splitOn dot).getLast? ≠ some [] :=
      getLast_splitOn hglyphs fun hd => hdot (hlastGlyph.mp hd)
    have hroot : plain s ≠ [dot] := fun he => hdot (hlastGlyph.mp (by rw [he]; rfl))
    have happend : plain (s ++ [unit '.']) = plain s ++ [dot] := by simp [plain,dot]
    have hat' : plain s ++ [dot] ≠ plain (js "@") := by
      intro he
      have hlen := congrArg List.getLast? he
      rw [List.getLast?_concat] at hlen
      exact absurd hlen (by decide)
    rw [readName,if_neg (by simp [Item.word,plain]),Item.word,happend,if_neg hat',if_neg (by simpa using hglyphs)]
    simpa [Item.word,hrelative,hroot,splitOn_snoc] using h

end Names

section Entries
variable {s type : JsString} {n : Name} {context : Context} {data : List Item} {rdata : Rdata}

theorem bare_word (s : JsString) : (Item.word s).bare = some s := by
  have htext : (Item.word s).text = s := by
    simp [Item.word,Item.text,plain,Function.comp_def]
  rw [Item.bare,htext,if_pos rfl]

theorem readNumber_word {k : Nat} : readNumber (Item.word (decimal k)) = some k := by
  have hne : decimal k ≠ [] := by simp [decimal,decimalLoop]
  have hdigits : (decimal k).all isDigit := List.all_eq_true.mpr (decimal_digits k)
  rw [readNumber,bare_word,Option.bind_some,if_pos ⟨hne,hdigits⟩,digitsValue_decimal]

/-- A record that states its TTL and class takes nothing from the entries before it. -/
theorem readRecord_stated (owner : Name) (ttl : Nat) (htype : type.map asciiUpper = type)
    (hdata : readRdata context.origin type data = some rdata) :
    readRecord context owner (Item.word (decimal ttl) :: Item.word (js "IN") :: Item.word type :: data) =
      some ({ context with owner := some owner, ttl := some ttl, class' := some (js "IN") },
        ⟨owner,ttl,js "IN",type,rdata⟩) := by
  have hclass : readNumber (Item.word (js "IN")) = none ∧ readClass (Item.word (js "IN")) = some (js "IN") := by
    decide
  have hfields : readFields none none (Item.word (decimal ttl) :: Item.word (js "IN") :: Item.word type :: data) =
      (some ttl,some (js "IN"),Item.word type :: data) := by
    simp only [readFields,readNumber_word,hclass.2]
  rw [readRecord,hfields]
  simp [bare_word,htype,hdata]

theorem readEntry_named (hname : nameOf s = some n) (ttl : Nat) (htype : type.map asciiUpper = type)
    (hdata : readRdata context.origin type data = some rdata) :
    readEntry context ⟨false,Item.word (absolute s) :: Item.word (decimal ttl) :: Item.word (js "IN") ::
      Item.word type :: data⟩ =
      some ({ context with owner := some n, ttl := some ttl, class' := some (js "IN") },
        [⟨n,ttl,js "IN",type,rdata⟩]) := by
  have hdirective : Item.word (absolute s) ≠ Item.word (js "$ORIGIN") := by
    intro he
    have htext := congrArg Item.bare he
    rw [bare_word,bare_word,Option.some.injEq] at htext
    have hdot : (absolute s).getLast? = some (unit '.') := by
      rw [absolute]
      split
      · assumption
      · exact List.getLast?_concat
    rw [htext] at hdot
    exact absurd hdot (by decide)
  rw [readEntry]
  simp only [Bool.false_eq_true,if_false,if_neg hdirective,readName_absolute hname,Option.bind_some,
    readRecord_stated n ttl htype hdata,Option.map_some]

end Entries
end JustMail.Foundation.MasterFile
