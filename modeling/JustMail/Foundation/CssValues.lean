import JustMail.Foundation.CodeUnits
import JustMail.Foundation.CssSheets

/-! Colors and dimensions, which stay within their declarations, and selectors of an attribute
and of the root. -/
namespace JustMail.Foundation.Css
open Scanner

section Words
variable {c : CodeUnit} {s : JsString} {w : Word}

/-- A value of one token, which ends where the value does. -/
theorem contained_word (hslash : c ≠ SLASH) (hrun : (kindAfter c).run s = ⟨.word w,s,[]⟩)
    (hstop : (kindAfter c).run (s ++ [SEMICOLON]) = ⟨.word w,s,[SEMICOLON]⟩) (hw : w = .hash ∨ w = .dimension) : Contained (c :: s) := by
  have htokens : tokens (c :: s) = [⟨.word w,c :: s⟩] := by
    rw [tokens_cons hslash,tokenAt,hrun]
    rfl
  refine ⟨?_,?_⟩
  · rw [htokens,List.cons_append,tokens_cons hslash,tokenAt,hstop,tokens_semicolon]
    rfl
  · rw [htokens]
    rcases hw with rfl | rfl <;> simp [isDeclarationValue,isBang,nest]

theorem run_identSequence_end (hs : ∀ d ∈ s, isIdent d = true) : (identSequence 0).run s = ⟨s,s,[]⟩ := by
  have hbackslash : BACKSLASH ∉ s := fun hmem => absurd (hs _ hmem) (by decide)
  rw [identSequence,run_spanEscaped hbackslash,List.takeWhile_eq_self_iff.mpr hs,List.dropWhile_eq_nil_iff.mpr hs]

/-- A number sign with a name, such as a color. -/
theorem contained_hash {d : CodeUnit} (hs : ∀ c ∈ d :: s, isIdent c = true) : Contained (unit '#' :: d :: s) := by
  have hquote : ¬ (unit '#' = QUOTE ∨ unit '#' = APOSTROPHE) := by decide
  have hrun : ∀ x rest, (identSequence 0).run (d :: s ++ x) = ⟨d :: s,d :: s,rest⟩ →
      (kindAfter (unit '#')).run (d :: s ++ x) = ⟨.word .hash,d :: s,rest⟩ := by
    intro x rest hsequence
    have hstart : ((d :: s ++ x).head?.any isIdent || validEscape (d :: s ++ x)) = true := by
      rw [List.cons_append,List.head?_cons,Option.any_some,hs d List.mem_cons_self,Bool.true_or]
    have hhash : hashAfter.run (d :: s ++ x) = ⟨.hash,d :: s,rest⟩ := by
      rw [hashAfter,run_ask_yes (p := fun s => s.head?.any isIdent || validEscape s) hstart,run_bind,hsequence,run_pure,List.append_nil]
    rw [run_kindAfter_word (by decide) (by decide),wordAfter,if_neg hquote,if_pos rfl,hhash]
  refine contained_word (by decide) ?_ (hrun [SEMICOLON] _ (run_identSequence hs (by decide) (by decide))) (.inl rfl)
  have hend := hrun [] [] (by rw [List.append_nil]; exact run_identSequence_end hs)
  rwa [List.append_nil] at hend

end Words

section Numbers
variable {c : CodeUnit} {ds fr ex rest : JsString}

def IsFraction (s : JsString) : Prop := s = [] ∨ ∃ d ds, s = DOT :: d :: ds ∧ ∀ c ∈ d :: ds, isDigit c = true

def IsExponent (s : JsString) : Prop :=
  s = [] ∨ ∃ sign d ds, s = unit 'e' :: sign :: d :: ds ∧ (sign = unit '+' ∨ sign = HYPHEN) ∧ ∀ c ∈ d :: ds, isDigit c = true

theorem run_digits (hds : ∀ c ∈ ds, isDigit c = true) (hrest : ∀ c ∈ rest.head?, isDigit c = false) :
    (spanWhile isDigit).run (ds ++ rest) = ⟨ds,ds,rest⟩ := by
  have hspan := span_run hds hrest
  rw [run_spanWhile,hspan.1,hspan.2]

theorem run_fraction (h : IsFraction fr) (hrest : ∀ c ∈ rest.head?, isDigit c = false ∧ c ≠ DOT) :
    fraction.run (fr ++ rest) = ⟨(),fr,rest⟩ := by
  rcases h with rfl | ⟨d,ds,rfl,hds⟩
  · have hstart : startsFraction rest = false := by
      rw [startsFraction,Bool.and_eq_false_iff]
      left
      rw [beq_eq_false_iff_ne]
      intro hhead
      exact (hrest DOT hhead).2 rfl
    exact run_ask_no hstart
  · have hd : isDigit d = true := hds d List.mem_cons_self
    have hstart : startsFraction (DOT :: d :: ds ++ rest) = true := by simp [startsFraction,startsDigits,hd]
    have hdigits := run_digits hds fun c hc => (hrest c hc).1
    have htake : (take 1).run (DOT :: d :: ds ++ rest) = ⟨[DOT],[DOT],d :: ds ++ rest⟩ := rfl
    rw [fraction,run_ask_yes hstart,run_bind,htake]
    dsimp only
    rw [run_bind,hdigits]
    dsimp only
    rw [run_pure,List.append_nil]
    rfl

theorem run_exponent (h : IsExponent ex) (hrest : ∀ c ∈ rest.head?, isDigit c = false ∧ c ≠ unit 'e' ∧ c ≠ unit 'E') :
    exponent.run (ex ++ rest) = ⟨(),ex,rest⟩ := by
  rcases h with rfl | ⟨sign,d,ds,rfl,hsign,hds⟩
  · have hstart : startsExponent rest = false := by
      cases rest with
      | nil => rfl
      | cons c rest =>
        obtain ⟨-,hlower,hupper⟩ := hrest c rfl
        simp [startsExponent,hlower,hupper]
    exact run_ask_no hstart
  · have hd : isDigit d = true := hds d List.mem_cons_self
    have hstart : startsExponent (unit 'e' :: sign :: d :: ds ++ rest) = true := by
      rcases hsign with rfl | rfl <;> simp [startsExponent,hd]
    have hdigits := run_digits hds fun c hc => (hrest c hc).1
    have htake : (take 2).run (unit 'e' :: sign :: d :: ds ++ rest) = ⟨[unit 'e',sign],[unit 'e',sign],d :: ds ++ rest⟩ := rfl
    rw [exponent,run_ask_yes hstart,run_bind,htake]
    dsimp only
    rw [run_bind,hdigits]
    dsimp only
    rw [run_pure,List.append_nil]
    rfl

/-- Behind its first unit a number in pixels is digits, a fraction, an exponent and the unit. -/
theorem run_numberAfter (hc : c ≠ DOT) (hds : ∀ c ∈ ds, isDigit c = true) (hfr : IsFraction fr) (hex : IsExponent ex) :
    (numberAfter c).run (ds ++ (fr ++ (ex ++ js "px"))) = ⟨.dimension,ds ++ (fr ++ (ex ++ js "px")),[]⟩ := by
  have hunit : ∀ c ∈ (js "px").head?, isDigit c = false ∧ c ≠ DOT ∧ c ≠ unit 'e' ∧ c ≠ unit 'E' := by decide
  have hexponent : ∀ c ∈ (ex ++ js "px").head?, isDigit c = false ∧ c ≠ DOT := by
    rcases hex with rfl | ⟨sign,d,ds,rfl,-⟩
    · exact fun c hc => ⟨(hunit c hc).1,(hunit c hc).2.1⟩
    · rintro c ⟨⟩
      decide
  have hfraction : ∀ c ∈ (fr ++ (ex ++ js "px")).head?, isDigit c = false := by
    rcases hfr with rfl | ⟨d,ds,rfl,-⟩
    · exact fun c hc => (hexponent c hc).1
    · rintro c ⟨⟩
      decide
  have hnumberUnit : numberUnit.run (js "px") = ⟨.dimension,js "px",[]⟩ := by decide
  rw [numberAfter,run_bind,run_digits hds hfraction]
  dsimp only
  rw [run_bind,fractionAfter,if_neg hc,run_fraction hfr hexponent]
  dsimp only
  rw [run_bind,run_exponent hex fun c hc => ⟨(hunit c hc).1,(hunit c hc).2.2⟩]
  dsimp only
  rw [hnumberUnit]

theorem run_wordAfter_number {s : JsString} (hc : isDigit c = true ∨ c = HYPHEN) (hstart : startsNumber (c :: s) = true) :
    (wordAfter c).run s = (numberAfter c).run s := by
  have hspecial : ¬ (c = QUOTE ∨ c = APOSTROPHE) ∧ c ≠ unit '#' ∧ c ≠ unit '@' ∧ c ≠ unit '<' := by
    rcases hc with hc | rfl
    · exact of_isDigit (p := fun c => ¬ (c = QUOTE ∨ c = APOSTROPHE) ∧ c ≠ unit '#' ∧ c ≠ unit '@' ∧ c ≠ unit '<') (by decide) hc
    · decide
  have hless : (c == unit '<' && (js "!--").isPrefixOf s) = false := by
    rw [beq_eq_false_iff_ne.mpr hspecial.2.2.2,Bool.false_and]
  rw [wordAfter,if_neg hspecial.1,if_neg hspecial.2.1,if_neg hspecial.2.2.1,run_ask_no hless,
    run_ask_yes (p := fun s => startsNumber (c :: s)) hstart]

/-- A number in pixels, with a sign or without. -/
theorem contained_pixels (hc : isDigit c = true ∨ c = HYPHEN ∧ ds ≠ []) (hds : ∀ c ∈ ds, isDigit c = true) (hfr : IsFraction fr)
    (hex : IsExponent ex) : Contained (c :: (ds ++ (fr ++ (ex ++ js "px")))) := by
  have hfirst : c ≠ DOT ∧ c ≠ SLASH ∧ c ≠ BACKSLASH ∧ isIdent c = true := by
    rcases hc with hc | ⟨rfl,-⟩
    · exact of_isDigit (p := fun c => c ≠ DOT ∧ c ≠ SLASH ∧ c ≠ BACKSLASH ∧ isIdent c = true) (by decide) hc
    · decide
  have hstart : startsNumber (c :: (ds ++ (fr ++ (ex ++ js "px")))) = true := by
    rcases hc with hc | ⟨rfl,hne⟩
    · have hsign : ¬ (c = unit '+' ∨ c = HYPHEN) := of_isDigit (p := fun c => ¬ (c = unit '+' ∨ c = HYPHEN)) (by decide) hc
      rw [startsNumber,if_neg hsign,startsDigits,hc,Bool.true_or]
    · cases ds with
      | nil => exact absurd rfl hne
      | cons d ds =>
        rw [startsNumber,if_pos (.inr rfl),List.cons_append,startsDigits,hds d List.mem_cons_self,Bool.true_or]
  have hbackslash : BACKSLASH ∉ ds ++ (fr ++ (ex ++ js "px")) := by
    have hdigit : ∀ {l : JsString}, (∀ c ∈ l, isDigit c = true) → BACKSLASH ∉ l := fun hl hmem => absurd (hl _ hmem) (by decide)
    have hunit : BACKSLASH ∉ js "px" := by decide
    simp only [List.mem_append,not_or]
    refine ⟨hdigit hds,?_,?_,hunit⟩
    · rcases hfr with rfl | ⟨d,ds,rfl,hds⟩
      · exact List.not_mem_nil
      · rw [List.mem_cons,not_or]
        exact ⟨by decide,hdigit hds⟩
    · rcases hex with rfl | ⟨sign,d,ds,rfl,hsign,hds⟩
      · exact List.not_mem_nil
      · rw [List.mem_cons,List.mem_cons,not_or,not_or]
        refine ⟨by decide,?_,hdigit hds⟩
        rcases hsign with rfl | rfl <;> decide
  have hrun := run_numberAfter hfirst.1 hds hfr hex
  have hstop := within_numberAfter hbackslash c []
  rw [hrun] at hstop
  have hstart' : startsNumber (c :: (ds ++ (fr ++ (ex ++ js "px")) ++ [SEMICOLON])) = true :=
    (startsNumber_stop (ds ++ (fr ++ (ex ++ js "px"))) [] c).trans hstart
  have hc' : isDigit c = true ∨ c = HYPHEN := hc.imp_right And.left
  refine contained_word hfirst.2.1 ?_ ?_ (.inr rfl)
  · rw [run_kindAfter_word (punctuation_isIdent hfirst.2.2.2) (isBlank_isIdent hfirst.2.2.2),run_wordAfter_number hc' hstart,hrun]
  · rw [run_kindAfter_word (punctuation_isIdent hfirst.2.2.2) (isBlank_isIdent hfirst.2.2.2),run_wordAfter_number hc' hstart',hstop]
    rfl

end Numbers

section Selectors
variable {name id : JsString}

/-- `[name="id"]`. -/
def attributeSelector (name id : JsString) : JsString :=
  unit '[' :: (name ++ unit '=' :: QUOTE :: (id ++ [QUOTE,unit ']']))

theorem run_stringAfter {s : JsString} (hbackslash : BACKSLASH ∉ s) (hquote : QUOTE ∉ s) (hlf : LF ∉ s) (r : JsString) :
    (stringAfter QUOTE).run (s ++ QUOTE :: r) = ⟨.string,s ++ [QUOTE],r⟩ := by
  have hunits : ∀ c ∈ s, (c != QUOTE && c != LF) = true := by
    intro c hc
    rw [Bool.and_eq_true,bne_iff_ne,bne_iff_ne]
    exact ⟨fun h => hquote (h ▸ hc),fun h => hlf (h ▸ hc)⟩
  have hbody : (spanEscaped BACKSLASH (fun c => c != QUOTE && c != LF) stringEscape 0).Within QUOTE s :=
    within_spanEscaped hbackslash (by decide) (.inl (by decide))
  have hstart : starts QUOTE (QUOTE :: r) = true := by simp [starts]
  rw [stringAfter,run_bind,hbody r,run_spanEscaped hbackslash,List.takeWhile_eq_self_iff.mpr hunits,List.dropWhile_eq_nil_iff.mpr hunits]
  dsimp only
  rw [List.nil_append,run_ask_yes hstart]
  rfl

theorem tokens_attributeSelector {c : CodeUnit} {m : JsString} (hbegins : BeginsName c m) (hm : ∀ d ∈ m, isIdent d = true)
    (hbackslash : BACKSLASH ∉ id) (hquote : QUOTE ∉ id) (hlf : LF ∉ id) (r : JsString) :
    tokens (attributeSelector (c :: m) id ++ r) = [⟨.opening .square,[unit '[']⟩,⟨.word .ident,c :: m⟩,⟨.word .delim,[unit '=']⟩,
      ⟨.word .string,QUOTE :: (id ++ [QUOTE])⟩,⟨.closing .square,[unit ']']⟩] ++ tokens r := by
  have hopen : punctuation (unit '[') = some (.opening .square) := by decide
  have hclose : punctuation (unit ']') = some (.closing .square) := by decide
  have hequals : ∀ s, (kindAfter (unit '=')).run s = ⟨.word .delim,[],s⟩ := by
    intro s
    rfl
  have hstring : ∀ s, (kindAfter QUOTE).run (id ++ QUOTE :: s) = ⟨.word .string,id ++ [QUOTE],s⟩ := by
    intro s
    rw [run_kindAfter_word (by decide) (by decide),wordAfter,if_pos (.inl rfl),run_stringAfter hbackslash hquote hlf]
  have htext : attributeSelector (c :: m) id ++ r =
      unit '[' :: c :: (m ++ unit '=' :: QUOTE :: (id ++ QUOTE :: unit ']' :: r)) := by simp [attributeSelector]
  rw [htext,tokens_punctuation hopen,tokens_name hbegins hm (by decide) (by decide) (by decide),tokens_cons (by decide),tokenAt,hequals,
    tokens_cons (by decide),tokenAt,hstring,tokens_punctuation hclose]
  rfl

theorem tokens_block (r : JsString) :
    tokens (unit ' ' :: OPEN_CURLY :: r) = ⟨.blank,[unit ' ']⟩ :: ⟨.opening .curly,[OPEN_CURLY]⟩ :: tokens r := by
  have hopen : punctuation OPEN_CURLY = some (.opening .curly) := by decide
  have hblank : ¬ isBlank OPEN_CURLY = true := by decide
  rw [tokens_blank (by decide),List.takeWhile_cons_of_neg hblank,List.dropWhile_cons_of_neg hblank,tokens_punctuation hopen]

theorem isSelector_attribute {c : CodeUnit} {m : JsString} (hbegins : BeginsName c m) (hname : ∀ d ∈ c :: m, isIdent d = true)
    (hslash : SLASH ∉ id) (hbackslash : BACKSLASH ∉ id) (hquote : QUOTE ∉ id) (hlf : LF ∉ id) :
    IsSelector (attributeSelector (c :: m) id) := by
  have hread := tokens_attributeSelector hbegins (fun d hd => hname d (List.mem_cons_of_mem _ hd)) hbackslash hquote hlf
  have hself := hread []
  have hnil : tokens [] = [] := rfl
  rw [List.append_nil,hnil,List.append_nil] at hself
  have hslash' : SLASH ∉ c :: m := fun hmem => absurd (hname _ hmem) (by decide)
  refine ⟨?_,fun r => by rw [hread,hself,tokens_block],?_,?_,?_,?_,?_⟩
  · have htext : attributeSelector (c :: m) id = [unit '['] ++ ((c :: m) ++ ([unit '=',QUOTE] ++ (id ++ [QUOTE,unit ']']))) := by
      simp [attributeSelector]
    have hopen : SLASH ∉ [unit '['] := by decide
    have hequals : SLASH ∉ [unit '=',QUOTE] := by decide
    have hclose : SLASH ∉ [QUOTE,unit ']'] := by decide
    rw [htext]
    repeat rw [List.mem_append,not_or]
    exact ⟨hopen,hslash',hequals,hslash,hclose⟩
  all_goals rw [hself]
  · simp
  · rfl
  · simp
  · simp
  · simp

theorem isSelector_root : IsSelector (js ":root") := by
  have hself : tokens (js ":root") = [⟨.colon,[COLON]⟩,⟨.word .ident,js "root"⟩] := by decide +kernel
  have hread : ∀ r, tokens (js ":root" ++ unit ' ' :: OPEN_CURLY :: r) =
      [⟨.colon,[COLON]⟩,⟨.word .ident,js "root"⟩] ++ ⟨.blank,[unit ' ']⟩ :: ⟨.opening .curly,[OPEN_CURLY]⟩ :: tokens r := by
    intro r
    have htext : js ":root" ++ unit ' ' :: OPEN_CURLY :: r = COLON :: unit 'r' :: (js "oot" ++ unit ' ' :: OPEN_CURLY :: r) := rfl
    have hunits : ∀ d ∈ js "oot", isIdent d = true := by decide
    rw [htext,tokens_colon,tokens_name (.inl (by decide)) hunits (by decide) (by decide) (by decide),tokens_block]
    rfl
  refine ⟨by decide,fun r => by rw [hread,hself],?_,?_,?_,?_,?_⟩
  all_goals rw [hself]
  · simp
  · rfl
  · simp
  · simp
  · simp

end Selectors

end JustMail.Foundation.Css
