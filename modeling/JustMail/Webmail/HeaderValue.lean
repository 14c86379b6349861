import JustMail.Dav.ContentLine
import JustMail.Foundation.CodeUnits
import JustMail.Foundation.NormalForms

/-! `headerValue` (`threading.ts`): one field of a raw header block, found by a lazy regular
expression, and what it is on blocks as RFC 5322 has them. -/
namespace JustMail.Webmail.HeaderValue
open Foundation
open Dav.ContentLine (CR LF SP TAB isBlank Unbroken)

/-- How a regular expression with the flag `i` compares two units: by their upper case,
where a unit beyond ASCII never becomes one of ASCII. -/
structure Canonicalize where
  map : CodeUnit → CodeUnit
  ascii (c : CodeUnit) : c < 128 → map c = asciiUpper c
  beyond (c : CodeUnit) : 128 ≤ c → 128 ≤ map c

/-- Without the tables of Unicode. -/
def asciiCanonicalize : Canonicalize where
  map c := if c < 128 then asciiUpper c else c
  ascii _ h := if_pos h
  beyond c h := by
    rw [if_neg (UInt16.not_lt.mpr h)]
    exact h

/-- `\r?\n`. -/
def afterLineEnd : JsString → Option JsString
  | [] => none
  | c :: s => if c = LF then some s else if c = CR ∧ s.head? = some LF then some s.tail else none

/-- `(?:\r?\n(?![ \t])|$)`. -/
def fieldEnds (s : JsString) : Bool := s.isEmpty || (afterLineEnd s).any fun rest => !rest.head?.any isBlank

/-- `([\s\S]*?)` up to where the field ends. -/
def lazyValue : JsString → JsString
  | [] => []
  | c :: s => if fieldEnds (c :: s) then [] else c :: lazyValue s

/-- `value.replace(/\r?\n[ \t]+/g, " ")`. The flag tells that the blanks of a match go on. -/
def replaceFolds : Bool → JsString → JsString
  | _, [] => []
  | inFold, c :: s =>
    if inFold && isBlank c then replaceFolds true s
    else if c = CR ∧ s.head? = some LF ∧ s.tail.head?.any isBlank then replaceFolds false s
    else if c = LF ∧ s.head?.any isBlank then unit ' ' :: replaceFolds true s
    else c :: replaceFolds false s

section Matching
variable (canonicalize : Canonicalize) (name : JsString)

def afterName (s : JsString) : Option JsString :=
  if (s.take name.length).map canonicalize.map = name.map canonicalize.map then some (s.drop name.length) else none

/-- The group of a match whose name starts the text. `\s*` takes all it can, since the
group and its end match whatever follows. -/
def valueAt (s : JsString) : Option JsString :=
  (afterName canonicalize name s).bind fun rest =>
    if rest.head? = some (unit ':') then some (lazyValue (trimStart rest.tail)) else none

/-- The first match behind a line end. -/
def searchLines : JsString → Option JsString
  | [] => none
  | c :: s => ((afterLineEnd (c :: s)).bind (valueAt canonicalize name)) <|> searchLines s

/-- `re.exec(raw)`, of which only the group is read. -/
def execHeader (raw : JsString) : Option JsString := valueAt canonicalize name raw <|> searchLines canonicalize name raw

/-- The name goes into the expression as it is, so it means itself where it has no
character of regular expressions. -/
def headerValue (raw : Option JsString) : Option JsString :=
  match raw with
  | none => none
  | some raw =>
    if raw = [] then none
    else (execHeader canonicalize name raw).map fun value => trim (replaceFolds false value)

inductive LineEnd where
  | crlf
  | lf
  deriving DecidableEq

def LineEnd.text : LineEnd → JsString
  | crlf => [CR,LF]
  | lf => [LF]

/-- A further line of a value: the line end before it, the blanks it starts with and the rest. -/
structure Fold where
  lineEnd : LineEnd
  blanks : JsString
  text : JsString
  blanks_ne : blanks ≠ []
  blanks_blank : ∀ c ∈ blanks, isBlank c = true
  text_head : ∀ c ∈ text.head?, isBlank c = false
  text_unbroken : Unbroken text

/-- A field: its name, the rest of its line, the lines its value is folded over, and what
ends it where another field follows. -/
structure Field where
  name : JsString
  value : JsString
  folds : List Fold
  lineEnd : LineEnd
  name_colon : unit ':' ∉ name
  name_space : ∀ c ∈ name, isSpace c = false
  value_unbroken : Unbroken value

def Fold.render (f : Fold) : JsString := f.lineEnd.text ++ f.blanks ++ f.text

/-- All that stands behind the colon. -/
def Field.body (f : Field) : JsString := f.value ++ f.folds.flatMap Fold.render

def Field.render (f : Field) : JsString := f.name ++ unit ':' :: f.body

def closingText (closing : List LineEnd) : JsString := closing.flatMap LineEnd.text

/-- What follows a field: the line end and the other fields, or what closes the block. -/
def behind (closing : List LineEnd) (lineEnd : LineEnd) : List Field → JsString
  | [] => closingText closing
  | f :: fs => lineEnd.text ++ (f.render ++ behind closing f.lineEnd fs)

/-- The block, closed by no line end, by that of the last line, or by empty lines as well. -/
def blockText (closing : List LineEnd) : List Field → JsString
  | [] => closingText closing
  | f :: fs => f.render ++ behind closing f.lineEnd fs

/-- Names are the same in any case. -/
def Field.Named (canonicalize : Canonicalize) (name : JsString) (f : Field) : Prop :=
  f.name.map canonicalize.map = name.map canonicalize.map

instance (canonicalize : Canonicalize) (name : JsString) (f : Field) : Decidable (f.Named canonicalize name) :=
  inferInstanceAs (Decidable (_ = _))

/-- A field name, to be searched for: no colon, no white space, no character of regular
expressions. -/
structure IsFieldName (name : JsString) : Prop where
  colon : unit ':' ∉ name
  space : ∀ c ∈ name, isSpace c = false
  literal : ∀ c ∈ js "^$\\.*+?()[]\x7b\x7d|", c ∉ name

/-- The value in one line: each line end and the blanks behind it as one space. -/
def Field.unfolded (f : Field) : JsString := f.value ++ f.folds.flatMap fun fold => unit ' ' :: fold.text

/-- The value in one line, with all blanks kept: RFC 5322 takes away the line ends alone. -/
def Field.joined (f : Field) : JsString := f.value ++ f.folds.flatMap fun fold => fold.blanks ++ fold.text

/-- Some unit is no white space. -/
def visible (s : JsString) : Bool := s.any fun c => !isSpace c

/-- The value, or a line of it, has something to see. -/
def Field.isVisible (f : Field) : Bool := visible f.value || f.folds.any fun fold => visible fold.text

/-- Every line up to the last one with something to see starts with one space. -/
def Tight : List Fold → Prop
  | [] => True
  | f :: fs => ((visible f.text || fs.any fun fold => visible fold.text) = true → f.blanks = [SP]) ∧ Tight fs

/-- As far as one can see, the text is folded at single spaces. -/
def SpaceFolded : JsString → List Fold → Prop
  | _, [] => True
  | value, f :: fs => if visible value then Tight (f :: fs) else SpaceFolded f.text fs

end Matching

section Pieces
variable {s t x : JsString} {c : CodeUnit}

theorem lazyValue_plain (hcr : c ≠ CR) (hlf : c ≠ LF) (s : JsString) : lazyValue (c :: s) = c :: lazyValue s := by
  rw [lazyValue,if_neg]
  simp [fieldEnds,afterLineEnd,hcr,hlf]

theorem lazyValue_unbroken (hx : Unbroken x) (s : JsString) : lazyValue (x ++ s) = x ++ lazyValue s := by
  induction x with
  | nil => rfl
  | cons c x ih =>
    obtain ⟨hcr,hlf⟩ := hx
    rw [List.mem_cons,not_or] at hcr hlf
    rw [List.cons_append,lazyValue_plain (Ne.symm hcr.1) (Ne.symm hlf.1),ih ⟨hcr.2,hlf.2⟩,List.cons_append]

/-- A line end before a blank belongs to the value. -/
theorem lazyValue_fold (e : LineEnd) (hc : isBlank c = true) (s : JsString) :
    lazyValue (e.text ++ c :: s) = e.text ++ lazyValue (c :: s) := by
  have hlf : lazyValue (LF :: c :: s) = LF :: lazyValue (c :: s) := by
    rw [lazyValue,if_neg]
    simp [fieldEnds,afterLineEnd,hc]
  cases e with
  | lf => exact hlf
  | crlf =>
    have hcr : lazyValue (CR :: LF :: c :: s) = CR :: lazyValue (LF :: c :: s) := by
      rw [lazyValue,if_neg]
      simp [fieldEnds,afterLineEnd,hc,show CR ≠ LF by decide]
    change lazyValue (CR :: LF :: c :: s) = CR :: LF :: lazyValue (c :: s)
    rw [hcr,hlf]

theorem lazyValue_ends (h : fieldEnds s = true) : lazyValue s = [] := by
  cases s with
  | nil => rfl
  | cons c s => rw [lazyValue,if_pos h]

/-- What the value takes after a part of it is what it takes from there. -/
theorem lazyValue_behind (h : lazyValue (x ++ s) = x ++ t) : lazyValue s = t := by
  induction x with
  | nil => exact h
  | cons c x ih =>
    rw [List.cons_append,lazyValue] at h
    split at h
    · cases h
    · exact ih (List.cons.inj h).2

theorem replaceFolds_plain (hcr : c ≠ CR) (hlf : c ≠ LF) (s : JsString) : replaceFolds false (c :: s) = c :: replaceFolds false s := by
  rw [replaceFolds,if_neg (by simp),if_neg (fun h => hcr h.1),if_neg (fun h => hlf h.1)]

theorem replaceFolds_unbroken (hx : Unbroken x) (s : JsString) : replaceFolds false (x ++ s) = x ++ replaceFolds false s := by
  induction x with
  | nil => rfl
  | cons c x ih =>
    obtain ⟨hcr,hlf⟩ := hx
    rw [List.mem_cons,not_or] at hcr hlf
    rw [List.cons_append,replaceFolds_plain (Ne.symm hcr.1) (Ne.symm hlf.1),ih ⟨hcr.2,hlf.2⟩,List.cons_append]

/-- The blanks of a match are dropped. -/
theorem replaceFolds_blanks (s : JsString) : replaceFolds true s = replaceFolds false (s.dropWhile isBlank) := by
  induction s with
  | nil => rfl
  | cons c s ih =>
    cases hc : isBlank c with
    | true => rw [List.dropWhile_cons_of_pos hc,← ih,replaceFolds,if_pos (by simp [hc])]
    | false =>
      have hneg (inFold : Bool) : ¬ (inFold && isBlank c) = true := by simp [hc]
      rw [List.dropWhile_cons_of_neg (by simp [hc])]
      conv_lhs => rw [replaceFolds,if_neg (hneg true)]
      conv_rhs => rw [replaceFolds,if_neg (hneg false)]

theorem replaceFolds_fold (e : LineEnd) (hc : isBlank c = true) (s : JsString) :
    replaceFolds false (e.text ++ c :: s) = unit ' ' :: replaceFolds false (s.dropWhile isBlank) := by
  have hlf : replaceFolds false (LF :: c :: s) = unit ' ' :: replaceFolds false (s.dropWhile isBlank) := by
    rw [replaceFolds,if_neg (by simp),if_neg (by simp [show LF ≠ CR by decide]),if_pos (by simp [hc]),replaceFolds_blanks,
      List.dropWhile_cons_of_pos hc]
  cases e with
  | lf => exact hlf
  | crlf =>
    change replaceFolds false (CR :: LF :: c :: s) = _
    rw [replaceFolds,if_neg (by simp),if_pos (by simp [hc]),hlf]

theorem LineEnd.blank (e : LineEnd) : ∀ c ∈ e.text, isSpace c = true := by
  cases e with
  | crlf => decide
  | lf => decide

theorem LineEnd.head (e : LineEnd) (s : JsString) : ∀ c ∈ (e.text ++ s).head?, isBlank c = false := by
  cases e with
  | crlf =>
    rintro c ⟨⟩
    decide
  | lf =>
    rintro c ⟨⟩
    decide

theorem isSpace_of_isBlank {c : CodeUnit} (h : isBlank c = true) : isSpace c = true := by
  rcases Bool.or_eq_true_iff.mp h with h | h
  · rw [eq_of_beq h]
    decide
  · rw [eq_of_beq h]
    decide

/-- The blanks of a further line are not all it may start with. -/
theorem Fold.exists_blank (f : Fold) : ∃ b blanks, f.blanks = b :: blanks ∧ isBlank b = true ∧ ∀ c ∈ blanks, isBlank c = true := by
  cases h : f.blanks with
  | nil => exact absurd h f.blanks_ne
  | cons b blanks =>
    have hblank := f.blanks_blank
    rw [h] at hblank
    exact ⟨b,blanks,rfl,hblank b List.mem_cons_self,fun c hc => hblank c (List.mem_cons_of_mem b hc)⟩

theorem Fold.blanks_unbroken (f : Fold) : Unbroken f.blanks := by
  constructor
  · intro h
    exact absurd (f.blanks_blank _ h) (by decide)
  · intro h
    exact absurd (f.blanks_blank _ h) (by decide)

theorem lazyValue_render (f : Fold) (s : JsString) : lazyValue (f.render ++ s) = f.render ++ lazyValue s := by
  obtain ⟨b,blanks,hblanks,hb,-⟩ := f.exists_blank
  have hrest : lazyValue (f.blanks ++ (f.text ++ s)) = f.blanks ++ (f.text ++ lazyValue s) := by
    rw [lazyValue_unbroken f.blanks_unbroken,lazyValue_unbroken f.text_unbroken]
  have hfold : lazyValue (f.lineEnd.text ++ (f.blanks ++ (f.text ++ s))) = f.lineEnd.text ++ lazyValue (f.blanks ++ (f.text ++ s)) := by
    rw [hblanks]
    exact lazyValue_fold f.lineEnd hb _
  rw [Fold.render,List.append_assoc,List.append_assoc,hfold,hrest]
  simp

theorem lazyValue_folds (folds : List Fold) (s : JsString) :
    lazyValue (folds.flatMap Fold.render ++ s) = folds.flatMap Fold.render ++ lazyValue s := by
  induction folds with
  | nil => rfl
  | cons f folds ih => rw [List.flatMap_cons,List.append_assoc,lazyValue_render,ih,List.append_assoc]

/-- The lazy group takes a whole value. -/
theorem lazyValue_body (f : Field) (s : JsString) : lazyValue (f.body ++ s) = f.body ++ lazyValue s := by
  rw [Field.body,List.append_assoc,lazyValue_unbroken f.value_unbroken,lazyValue_folds,List.append_assoc]

theorem replaceFolds_render (f : Fold) (hs : ∀ c ∈ s.head?, isBlank c = false) :
    replaceFolds false (f.render ++ s) = unit ' ' :: f.text ++ replaceFolds false s := by
  obtain ⟨b,blanks,hblanks,hb,hrest⟩ := f.exists_blank
  have hdrop : (blanks ++ (f.text ++ s)).dropWhile isBlank = f.text ++ s := by
    refine (span_run hrest ?_).2
    cases htext : f.text with
    | nil => exact hs
    | cons c text => exact fun d hd => f.text_head d (by rwa [htext])
  have hfold : replaceFolds false (f.lineEnd.text ++ (f.blanks ++ (f.text ++ s))) = unit ' ' :: replaceFolds false (f.text ++ s) := by
    rw [hblanks,List.cons_append,replaceFolds_fold f.lineEnd hb,hdrop]
  rw [Fold.render,List.append_assoc,List.append_assoc,hfold,replaceFolds_unbroken f.text_unbroken,List.cons_append]

theorem replaceFolds_folds (folds : List Fold) :
    replaceFolds false (folds.flatMap Fold.render) = folds.flatMap fun fold => unit ' ' :: fold.text := by
  induction folds with
  | nil => rfl
  | cons f folds ih =>
    rw [List.flatMap_cons,replaceFolds_render f,ih,List.flatMap_cons]
    cases folds with
    | nil => simp
    | cons g folds =>
      rw [List.flatMap_cons,Fold.render,List.append_assoc,List.append_assoc]
      exact g.lineEnd.head _

theorem replaceFolds_body (f : Field) : replaceFolds false f.body = f.unfolded := by
  rw [Field.body,replaceFolds_unbroken f.value_unbroken,replaceFolds_folds]
  rfl

end Pieces

section Searching
variable (canonicalize : Canonicalize) {name s rest x : JsString} {f : Field} {c : CodeUnit}

/-- A unit of ASCII that is no letter is the case of no other unit. -/
theorem Canonicalize.eq_of_map {c d : CodeUnit} (hd : d < 128) (hupper : ¬ (65 ≤ d ∧ d ≤ 90)) (hlower : ¬ (97 ≤ d ∧ d ≤ 122))
    (h : canonicalize.map c = canonicalize.map d) : c = d := by
  rw [canonicalize.ascii d hd,asciiUpper,if_neg hlower] at h
  by_cases hc : c < 128
  · rw [canonicalize.ascii c hc,asciiUpper] at h
    split at h
    · rename_i hletter
      have hlo := UInt16.le_iff_toNat_le.mp hletter.1
      have hhi := UInt16.le_iff_toNat_le.mp hletter.2
      simp only [UInt16.reduceToNat] at hlo hhi
      have hsub : (c - 32).toNat = c.toNat - 32 :=
        UInt16.toNat_sub_of_le _ _ (UInt16.le_iff_toNat_le.mpr (by simp only [UInt16.reduceToNat]; omega))
      refine absurd ⟨?_,?_⟩ hupper
      · rw [← h,UInt16.le_iff_toNat_le,hsub]
        simp only [UInt16.reduceToNat]
        omega
      · rw [← h,UInt16.le_iff_toNat_le,hsub]
        simp only [UInt16.reduceToNat]
        omega
    · exact h
  · have hbeyond := canonicalize.beyond c (UInt16.not_lt.mp hc)
    rw [h] at hbeyond
    exact absurd hd (UInt16.not_lt.mpr hbeyond)

theorem afterName_iff : afterName canonicalize name s = some rest ↔
    ∃ start, start.map canonicalize.map = name.map canonicalize.map ∧ s = start ++ rest := by
  unfold afterName
  constructor
  · intro h
    obtain ⟨heq,hrest⟩ := Option.ite_none_right_eq_some.mp h
    exact ⟨s.take name.length,heq,by rw [← Option.some_inj.mp hrest,List.take_append_drop]⟩
  · rintro ⟨start,heq,rfl⟩
    have hlength : name.length = start.length := by
      have hmap := congrArg List.length heq
      rw [List.length_map,List.length_map] at hmap
      exact hmap.symm
    rw [hlength,List.take_left,List.drop_left,if_pos heq]

/-- A text that the name starts, in any case, starts with none of the units that the name has not. -/
theorem notMem_start {start : JsString} {d : CodeUnit} (hd : d < 128) (hupper : ¬ (65 ≤ d ∧ d ≤ 90)) (hlower : ¬ (97 ≤ d ∧ d ≤ 122))
    (hname : d ∉ name) (h : start.map canonicalize.map = name.map canonicalize.map) : d ∉ start := by
  intro hmem
  have himage : canonicalize.map d ∈ name.map canonicalize.map := h ▸ List.mem_map_of_mem hmem
  obtain ⟨e,he,heq⟩ := List.mem_map.mp himage
  exact hname (canonicalize.eq_of_map hd hupper hlower heq ▸ he)

variable (hname : IsFieldName name)
include hname

theorem IsFieldName.notMem (hc : isSpace c = true) : c ∉ name := by
  intro hmem
  rw [hname.space c hmem] at hc
  cases hc

/-- No field starts with white space. -/
theorem valueAt_space (hd : c < 128) (hupper : ¬ (65 ≤ c ∧ c ≤ 90)) (hlower : ¬ (97 ≤ c ∧ c ≤ 122))
    (hspace : isSpace c = true) (hcolon : c ≠ unit ':') (s : JsString) : valueAt canonicalize name (c :: s) = none := by
  rw [valueAt,Option.bind_eq_none_iff]
  intro rest hrest
  obtain ⟨start,hstart,heq⟩ := (afterName_iff canonicalize).mp hrest
  rw [if_neg]
  intro hhead
  cases start with
  | nil =>
    rw [List.nil_append] at heq
    rw [← heq,List.head?_cons,Option.some.injEq] at hhead
    exact hcolon hhead
  | cons d start =>
    cases heq
    exact notMem_start canonicalize hd hupper hlower (hname.notMem hspace) hstart List.mem_cons_self

theorem valueAt_blank (hc : isBlank c = true) (s : JsString) : valueAt canonicalize name (c :: s) = none := by
  rcases Bool.or_eq_true_iff.mp hc with hc | hc
  · rw [eq_of_beq hc]
    exact valueAt_space canonicalize hname (by decide) (by decide) (by decide) (by decide) (by decide) s
  · rw [eq_of_beq hc]
    exact valueAt_space canonicalize hname (by decide) (by decide) (by decide) (by decide) (by decide) s

theorem valueAt_closing (closing : List LineEnd) : valueAt canonicalize name (closingText closing) = none := by
  cases closing with
  | nil =>
    rw [valueAt,Option.bind_eq_none_iff]
    intro rest hrest
    obtain ⟨start,-,heq⟩ := (afterName_iff canonicalize).mp hrest
    rw [(List.append_eq_nil_iff.mp heq.symm).2]
    exact if_neg (by simp)
  | cons e closing =>
    cases e with
    | crlf => exact valueAt_space canonicalize hname (by decide) (by decide) (by decide) (by decide) (by decide) _
    | lf => exact valueAt_space canonicalize hname (by decide) (by decide) (by decide) (by decide) (by decide) _

/-- A field matches where it has the name, by the first colon of its line. -/
theorem valueAt_render (f : Field) (s : JsString) :
    valueAt canonicalize name (f.render ++ s) =
      if f.Named canonicalize name then some (lazyValue (trimStart (f.body ++ s))) else none := by
  have hrender : f.render ++ s = f.name ++ unit ':' :: (f.body ++ s) := by simp [Field.render]
  rw [hrender]
  split
  · rename_i hnamed
    rw [valueAt,(afterName_iff canonicalize).mpr ⟨f.name,hnamed,rfl⟩,Option.bind_some,if_pos List.head?_cons]
    rfl
  · rename_i hnamed
    rw [valueAt,Option.bind_eq_none_iff]
    intro rest hrest
    obtain ⟨start,hstart,heq⟩ := (afterName_iff canonicalize).mp hrest
    rw [if_neg]
    intro hhead
    have hcolon := notMem_start canonicalize (d := unit ':') (by decide) (by decide) (by decide) hname.colon hstart
    have hcut : cut (unit ':') (f.name ++ unit ':' :: (f.body ++ s)) = _ := cut_append f.name_colon
    have hcut' : cut (unit ':') (start ++ unit ':' :: rest.tail) = _ := cut_append hcolon
    rw [List.cons_head?_tail hhead,← heq,hcut] at hcut'
    apply hnamed
    rw [Field.Named,(Prod.mk.inj (Option.some.inj hcut')).1]
    exact hstart

omit hname

theorem searchLines_plain (hcr : c ≠ CR) (hlf : c ≠ LF) (s : JsString) :
    searchLines canonicalize name (c :: s) = searchLines canonicalize name s := by
  rw [searchLines,afterLineEnd,if_neg hlf,if_neg (fun h => hcr h.1)]
  rfl

theorem searchLines_unbroken (hx : Unbroken x) (s : JsString) :
    searchLines canonicalize name (x ++ s) = searchLines canonicalize name s := by
  induction x with
  | nil => rfl
  | cons c x ih =>
    obtain ⟨hcr,hlf⟩ := hx
    rw [List.mem_cons,not_or] at hcr hlf
    rw [List.cons_append,searchLines_plain canonicalize (Ne.symm hcr.1) (Ne.symm hlf.1),ih ⟨hcr.2,hlf.2⟩]

/-- The two units of a line end are one place to search from. -/
theorem searchLines_lineEnd (e : LineEnd) (s : JsString) :
    searchLines canonicalize name (e.text ++ s) = execHeader canonicalize name s := by
  have hlf : searchLines canonicalize name (LF :: s) = execHeader canonicalize name s := by
    rw [searchLines,afterLineEnd,if_pos rfl,Option.bind_some,execHeader]
  cases e with
  | lf => exact hlf
  | crlf =>
    change searchLines canonicalize name (CR :: LF :: s) = _
    rw [searchLines,hlf,afterLineEnd,if_neg (by decide),if_pos ⟨rfl,rfl⟩,List.tail_cons,Option.bind_some,execHeader]
    cases valueAt canonicalize name s with
    | none => rfl
    | some value => rfl

include hname

/-- No line of a folded value is taken for a field. -/
theorem searchLines_render (f : Fold) (s : JsString) :
    searchLines canonicalize name (f.render ++ s) = searchLines canonicalize name s := by
  obtain ⟨b,blanks,hblanks,hb,-⟩ := f.exists_blank
  have hrest : execHeader canonicalize name (f.blanks ++ (f.text ++ s)) = searchLines canonicalize name (f.blanks ++ (f.text ++ s)) := by
    rw [execHeader,hblanks,List.cons_append,valueAt_blank canonicalize hname hb]
    rfl
  rw [Fold.render,List.append_assoc,List.append_assoc,searchLines_lineEnd,hrest,
    searchLines_unbroken canonicalize f.blanks_unbroken,searchLines_unbroken canonicalize f.text_unbroken]

theorem searchLines_folds (folds : List Fold) (s : JsString) :
    searchLines canonicalize name (folds.flatMap Fold.render ++ s) = searchLines canonicalize name s := by
  induction folds with
  | nil => rfl
  | cons f folds ih => rw [List.flatMap_cons,List.append_assoc,searchLines_render canonicalize hname,ih]

theorem searchLines_field (f : Field) (s : JsString) :
    searchLines canonicalize name (f.render ++ s) = searchLines canonicalize name s := by
  have hunbroken : Unbroken (f.name ++ [unit ':']) := by
    constructor
    · intro h
      rcases List.mem_append.mp h with h | h
      · exact absurd (f.name_space _ h) (by decide)
      · exact absurd h (by decide)
    · intro h
      rcases List.mem_append.mp h with h | h
      · exact absurd (f.name_space _ h) (by decide)
      · exact absurd h (by decide)
  have hrender : f.render ++ s = (f.name ++ [unit ':']) ++ (f.value ++ (f.folds.flatMap Fold.render ++ s)) := by
    simp [Field.render,Field.body]
  rw [hrender,searchLines_unbroken canonicalize hunbroken,searchLines_unbroken canonicalize f.value_unbroken,
    searchLines_folds canonicalize hname]

theorem searchLines_closing (closing : List LineEnd) : searchLines canonicalize name (closingText closing) = none := by
  induction closing with
  | nil => rfl
  | cons e closing ih =>
    rw [closingText,List.flatMap_cons,searchLines_lineEnd]
    change execHeader canonicalize name (closingText closing) = none
    rw [execHeader,valueAt_closing canonicalize hname,ih]
    rfl

theorem execHeader_closing (closing : List LineEnd) : execHeader canonicalize name (closingText closing) = none := by
  rw [execHeader,valueAt_closing canonicalize hname,searchLines_closing canonicalize hname]
  rfl

theorem searchLines_behind (closing : List LineEnd) (e : LineEnd) (fs : List Field) :
    searchLines canonicalize name (behind closing e fs) = execHeader canonicalize name (blockText closing fs) := by
  cases fs with
  | nil =>
    rw [behind,blockText,searchLines_closing canonicalize hname,execHeader_closing canonicalize hname]
  | cons f fs => exact searchLines_lineEnd canonicalize e _

end Searching

end JustMail.Webmail.HeaderValue
