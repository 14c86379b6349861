import Mathlib.Data.List.DropRight
import Mathlib.Data.List.Infix

/-! JavaScript strings as sequences of UTF-16 code units, with the operations of
the standard library that work unit by unit. Lone surrogates are ordinary units. -/
namespace JustMail.Foundation

abbrev CodeUnit := UInt16
abbrev JsString := List CodeUnit

/-- What holds of every unit of a string is decided along the string, not over all
code units. -/
instance decidableForallUnit (p : CodeUnit → Prop) [DecidablePred p] (s : JsString) : Decidable (∀ c ∈ s, p c) :=
  List.decidableBAll p s

instance decidableForallHead (p : CodeUnit → Prop) [DecidablePred p] (o : Option CodeUnit) : Decidable (∀ c ∈ o, p c) :=
  Option.decidableForallMem o

/-- What `∈` on a list of strings rests on, under one name wherever it is decided. -/
instance lawfulJsString : LawfulBEq JsString := inferInstance

/-- The code unit of a character of the basic plane. -/
def unit (c : Char) : CodeUnit := c.toNat.toUInt16

/-- UTF-16 encoding of one scalar value: one unit, or a surrogate pair. -/
def utf16 (c : Char) : JsString :=
  if c.toNat < 0x10000 then [unit c]
  else [(0xD800 + (c.toNat - 0x10000) / 0x400).toUInt16, (0xDC00 + (c.toNat - 0x10000) % 0x400).toUInt16]

/-- A source literal as a JavaScript string. -/
def js (s : String) : JsString := s.toList.flatMap utf16

/-- WhiteSpace and LineTerminator of ECMA-262, the units `trim` removes. -/
def isSpace (c : CodeUnit) : Bool :=
  (9 ≤ c && c ≤ 13) || c == 0x20 || c == 0xA0 || c == 0x1680 || (0x2000 ≤ c && c ≤ 0x200A) ||
  c == 0x2028 || c == 0x2029 || c == 0x202F || c == 0x205F || c == 0x3000 || c == 0xFEFF

def trimStart (s : JsString) : JsString := s.dropWhile isSpace
def trimEnd (s : JsString) : JsString := s.rdropWhile isSpace
def trim (s : JsString) : JsString := trimEnd (trimStart s)

/-- `s.replace(/a/g, new)` for a single unit `a`. -/
def replaceUnit (a : CodeUnit) (new s : JsString) : JsString :=
  s.flatMap fun c => if c = a then new else [c]

/-- Deleting units: `s.replace(/[..]/g, "")`. -/
def removeUnits (p : CodeUnit → Bool) (s : JsString) : JsString := s.filter fun c => !p c

/-- The part before the first occurrence of `a` and the part after it: the two
slices around `indexOf`, or nothing where `indexOf` answers -1. -/
def cut (a : CodeUnit) : JsString → Option (JsString × JsString)
  | [] => none
  | c :: s => if c = a then some ([],s) else (cut a s).map fun p => (c :: p.1,p.2)

def asciiLower (c : CodeUnit) : CodeUnit := if 65 ≤ c ∧ c ≤ 90 then c + 32 else c
def asciiUpper (c : CodeUnit) : CodeUnit := if 97 ≤ c ∧ c ≤ 122 then c - 32 else c

theorem asciiLower_idempotent (c : CodeUnit) : asciiLower (asciiLower c) = asciiLower c := by
  unfold asciiLower
  by_cases h : 65 ≤ c ∧ c ≤ 90
  · have hlo := UInt16.le_iff_toNat_le.mp h.1
    have hhi := UInt16.le_iff_toNat_le.mp h.2
    rw [if_pos h,if_neg]
    rintro ⟨-,hle⟩
    have hsum := UInt16.le_iff_toNat_le.mp hle
    simp at hlo hhi hsum
    omega
  · rw [if_neg h,if_neg h]

/-- The value of a base64 digit, of either alphabet. -/
def sextet (c : CodeUnit) : Option Nat :=
  if unit 'A' ≤ c ∧ c ≤ unit 'Z' then some (c - unit 'A').toNat
  else if unit 'a' ≤ c ∧ c ≤ unit 'z' then some ((c - unit 'a').toNat + 26)
  else if unit '0' ≤ c ∧ c ≤ unit '9' then some ((c - unit '0').toNat + 52)
  else if c = unit '+' ∨ c = unit '-' then some 62
  else if c = unit '/' ∨ c = unit '_' then some 63
  else none

def sextetBytes : List Nat → List Nat
  | a :: b :: c :: e :: rest => (a * 4 + b / 16) :: (b % 16 * 16 + c / 4) :: (c % 4 * 64 + e) :: sextetBytes rest
  | [a,b,c] => [a * 4 + b / 16,b % 16 * 16 + c / 4]
  | [a,b] => [a * 4 + b / 16]
  | _ => []

/-- `Buffer.from(s, "base64")`, which passes over everything that is no digit. -/
def bufferFromBase64 (s : JsString) : List Nat := sextetBytes (s.filterMap sextet)

/-- The locale-independent case mappings of the standard library. Their Unicode
tables stay abstract: only what they do to ASCII text, and that a line feed neither
appears nor disappears, is used. -/
structure CaseMapping where
  toLowerCase : JsString → JsString
  toUpperCase : JsString → JsString
  lower_ascii (s : JsString) : (∀ c ∈ s, c < 128) → toLowerCase s = s.map asciiLower
  upper_ascii (s : JsString) : (∀ c ∈ s, c < 128) → toUpperCase s = s.map asciiUpper
  lower_lf (s : JsString) : (10 : CodeUnit) ∈ toLowerCase s ↔ (10 : CodeUnit) ∈ s

/-- Case mapping of ASCII text; other units are left alone. -/
def asciiCase : CaseMapping where
  toLowerCase s := s.map asciiLower
  toUpperCase s := s.map asciiUpper
  lower_ascii _ _ := rfl
  upper_ascii _ _ := rfl
  lower_lf s := by
    constructor
    · intro h
      obtain ⟨c,hc,he⟩ := List.mem_map.mp h
      have : c = 10 := by
        unfold asciiLower at he
        split at he
        · rename_i hr
          have h1 := UInt16.le_iff_toNat_le.mp hr.1
          have h2 := UInt16.le_iff_toNat_le.mp hr.2
          have h3 := congrArg UInt16.toNat he
          simp only [UInt16.toNat_add] at h3
          simp at h1 h2 h3
          omega
        · exact he
      exact this ▸ hc
    · intro h
      exact List.mem_map.mpr ⟨10,h,rfl⟩

/-- Printable ASCII holds no white space. -/
theorem isSpace_of_graphic {c : CodeUnit} (hlo : 33 ≤ c) (hhi : c < 128) : isSpace c = false := by
  simp only [isSpace,Bool.or_eq_false_iff,Bool.and_eq_false_iff,decide_eq_false_iff_not,
    beq_eq_false_iff_ne,ne_eq]
  and_intros <;> grind

section Strings
variable {a : CodeUnit} {s t : JsString}

theorem cut_append (h : a ∉ s) : cut a (s ++ a :: t) = some (s,t) := by
  induction s with
  | nil => simp [cut]
  | cons c s ih =>
    rw [List.mem_cons,not_or] at h
    rw [List.cons_append,cut,if_neg (Ne.symm h.1),ih h.2]
    rfl

theorem eq_of_cut {before after : JsString} (h : cut a s = some (before,after)) : s = before ++ a :: after := by
  induction s generalizing before with
  | nil => simp [cut] at h
  | cons c s ih =>
    rw [cut] at h
    split at h
    · rename_i hc
      cases h
      rw [hc]
      rfl
    · obtain ⟨⟨rest,after'⟩,hrest,heq⟩ := Option.map_eq_some_iff.mp h
      cases heq
      rw [ih hrest]
      rfl

/-- A string with no white space at either end is its own trim. -/
theorem trim_eq_self (hf : ∀ c ∈ s.head?, isSpace c = false) (hl : ∀ c ∈ s.getLast?, isSpace c = false) :
    trim s = s := by
  have hs : trimStart s = s := by
    cases s with
    | nil => rfl
    | cons c s => exact List.dropWhile_cons_of_neg (by simp [hf c rfl])
  rw [trim,hs]
  apply List.rdropWhile_eq_self_iff.mpr
  intro hne
  simp [hl _ (List.getLast?_eq_some_getLast hne)]

theorem trim_eq_self_of_forall (h : ∀ c ∈ s, isSpace c = false) : trim s = s :=
  trim_eq_self (fun c hc => h c (List.mem_of_mem_head? hc)) (fun c hc => h c (List.mem_of_mem_getLast? hc))

theorem trim_head? : ∀ c ∈ (trim s).head?, isSpace c = false := by
  intro c hc
  have hfirst : c ∈ (trimStart s).head? := by
    obtain ⟨rest,hrest⟩ := List.rdropWhile_prefix isSpace (l := trimStart s)
    cases htrim : trim s with
    | nil => simp [htrim] at hc
    | cons d t =>
      obtain rfl : d = c := by simpa [htrim] using hc
      rw [← hrest,show (trimStart s).rdropWhile isSpace = d :: t from htrim]
      rfl
  have hnot := List.head?_dropWhile_not isSpace s
  rw [show s.dropWhile isSpace = trimStart s from rfl,Option.mem_def.mp hfirst] at hnot
  exact hnot

theorem trim_getLast? : ∀ c ∈ (trim s).getLast?, isSpace c = false := by
  intro c hc
  have hne : trim s ≠ [] := by
    rintro hnil
    simp [hnil] at hc
  have hlast := List.rdropWhile_last_not isSpace (trimStart s) hne
  rw [List.getLast?_eq_some_getLast hne] at hc
  rw [← Option.some.inj hc]
  exact Bool.eq_false_iff.mpr hlast

theorem trim_subset : trim s ⊆ s := by
  intro c hc
  exact (List.dropWhile_suffix isSpace).subset ((List.rdropWhile_prefix isSpace (l := trimStart s)).subset hc)

end Strings
/-! Pieces of regular expressions as functions on texts: classes, runs of a class, and literals in any case. -/
/-- `\w`. -/
def isWord (c : CodeUnit) : Bool := (48 ≤ c && c ≤ 57) || (65 ≤ c && c ≤ 90) || (97 ≤ c && c ≤ 122) || c == 95

/-- What follows a literal, given in lower case, in any case. -/
def afterLiteral (literal s : JsString) : Option JsString :=
  if (s.take literal.length).map asciiLower = literal then some (s.drop literal.length) else none

def AnyCase (literal s : JsString) : Prop := s.map asciiLower = literal

section Patterns
variable {α : Type} {literal s rest : JsString}

theorem isSpace_not_isWord {c : CodeUnit} (h : isSpace c = true) : isWord c = false := by
  rw [Bool.eq_false_iff]
  intro hword
  have hrange : 33 ≤ c ∧ c < 128 := by
    simp only [isWord,Bool.or_eq_true,Bool.and_eq_true,decide_eq_true_eq,beq_iff_eq,UInt16.le_iff_toNat_le,UInt16.lt_iff_toNat_lt,
      ← UInt16.toNat_inj,UInt16.reduceToNat] at hword ⊢
    omega
  rw [isSpace_of_graphic hrange.1 hrange.2] at h
  exact Bool.false_ne_true h

/-- A run of a class that ends at a unit outside of it. -/
theorem span_run {p : α → Bool} {run t : List α} (hrun : ∀ c ∈ run, p c = true) (ht : ∀ c ∈ t.head?, p c = false) :
    (run ++ t).takeWhile p = run ∧ (run ++ t).dropWhile p = t := by
  rw [List.takeWhile_append_of_pos hrun,List.dropWhile_append_of_pos hrun]
  cases t with
  | nil => exact ⟨List.append_nil run,rfl⟩
  | cons c t =>
    have hc : ¬p c = true := by simp [ht c rfl]
    rw [List.takeWhile_cons_of_neg hc,List.dropWhile_cons_of_neg hc,List.append_nil]
    exact ⟨rfl,rfl⟩

theorem head_any_iff {p : α → Bool} {l : List α} : l.head?.any p = true ↔ ∃ c rest, p c = true ∧ l = c :: rest := by
  cases l with
  | nil => simp
  | cons c s => simp

theorem afterLiteral_iff : afterLiteral literal s = some rest ↔ ∃ start, AnyCase literal start ∧ s = start ++ rest := by
  unfold afterLiteral AnyCase
  constructor
  · intro h
    obtain ⟨hlower,hrest⟩ := Option.ite_none_right_eq_some.mp h
    exact ⟨s.take literal.length,hlower,by rw [← Option.some_inj.mp hrest,List.take_append_drop]⟩
  · rintro ⟨start,rfl,rfl⟩
    rw [List.length_map,List.take_left,List.drop_left,if_pos rfl]

/-- A literal, and a test of what follows. -/
theorem afterLiteral_any_iff {p : JsString → Bool} : (afterLiteral literal s).any p = true ↔
    ∃ start rest, AnyCase literal start ∧ s = start ++ rest ∧ p rest = true := by
  rw [Option.any_eq_true]
  constructor
  · rintro ⟨rest,hrest,hp⟩
    obtain ⟨start,hstart,hs⟩ := afterLiteral_iff.mp hrest
    exact ⟨start,rest,hstart,hs,hp⟩
  · rintro ⟨start,rest,hstart,hs,hp⟩
    exact ⟨rest,afterLiteral_iff.mpr ⟨start,hstart,hs⟩,hp⟩

end Patterns
end JustMail.Foundation
