import JustMail.Foundation.CssRules
import JustMail.Foundation.CssSeams

/-! Stylesheets that are put together from selectors, names of custom properties and values.
They are read as they are meant if and only if every value stays within its declaration. -/
namespace JustMail.Foundation.Css

structure Style where
  selector : JsString
  declarations : List (JsString × JsString)

def declarationText (d : JsString × JsString) : JsString := js "\n  " ++ d.1 ++ js ": " ++ d.2 ++ [SEMICOLON]

def Style.text (st : Style) : JsString :=
  st.selector ++ [unit ' ',OPEN_CURLY] ++ st.declarations.flatMap declarationText ++ [LF,CLOSE_CURLY]

def sheetText (styles : List Style) : JsString := (js "\n\n").intercalate (styles.map Style.text)

/-- The declaration of the name, with the value as it is read by itself. -/
def declared (d : JsString × JsString) : Item := .declaration ⟨d.1,trimBlanks (tokens d.2),false⟩

def Style.meant (st : Style) : SheetRule := .style (tokens st.selector) (st.declarations.map declared)

/-- A value that ends with its last token, before the semicolon that is put behind it, and is well formed. -/
def Contained (v : JsString) : Prop :=
  tokens (v ++ [SEMICOLON]) = tokens v ++ [⟨.semicolon,[SEMICOLON]⟩] ∧ isDeclarationValue [] (tokens v) = true

instance decidableContained (v : JsString) : Decidable (Contained v) := instDecidableAnd

/-- Units that end no block, declaration or selector by themselves, and neither escape nor comment. -/
def isPlain (c : CodeUnit) : Bool :=
  c != BACKSLASH && c != SLASH && c != SEMICOLON && c != OPEN_CURLY && c != CLOSE_CURLY && c != unit '!'

/-- `--` and units of a name. -/
def IsCustomName (name : JsString) : Prop := ∃ d m, name = HYPHEN :: HYPHEN :: d :: m ∧ ∀ c ∈ d :: m, isIdent c = true

/-- A selector that is read up to the bracket of its block. -/
structure IsSelector (selector : JsString) : Prop where
  slash : SLASH ∉ selector
  splits : ∀ r, tokens (selector ++ unit ' ' :: OPEN_CURLY :: r) =
    tokens selector ++ ⟨.blank,[unit ' ']⟩ :: ⟨.opening .curly,[OPEN_CURLY]⟩ :: tokens r
  block : ∀ t ∈ tokens selector, t.kind ≠ .opening .curly
  closed : (tokens selector).foldl nest [] = []
  head : ∀ t ∈ (tokens selector).head?, t.kind ≠ .blank ∧ t.kind ≠ .word .cdo ∧ t.kind ≠ .word .cdc ∧ t.kind ≠ .word .atKeyword
  last : ∀ t ∈ (tokens selector).getLast?, t.kind ≠ .blank
  nonempty : tokens selector ≠ []

structure Style.WellNamed (st : Style) : Prop where
  selector : IsSelector st.selector
  names : ∀ d ∈ st.declarations, IsCustomName d.1
  values : ∀ d ∈ st.declarations, ∀ c ∈ d.2, isPlain c = true

section Values
variable {v X : JsString}

theorem plain_backslash (h : ∀ c ∈ v, isPlain c = true) : BACKSLASH ∉ v := fun hmem => absurd (h _ hmem) (by decide)
theorem plain_slash (h : ∀ c ∈ v, isPlain c = true) : SLASH ∉ v := fun hmem => absurd (h _ hmem) (by decide)

theorem tokens_semicolon (r : JsString) : tokens (SEMICOLON :: r) = ⟨.semicolon,[SEMICOLON]⟩ :: tokens r :=
  tokens_punctuation (by decide) r

theorem tokens_colon (r : JsString) : tokens (COLON :: r) = ⟨.colon,[COLON]⟩ :: tokens r := tokens_punctuation (by decide) r

theorem plain_space (h : ∀ c ∈ v, isPlain c = true) : ∀ c ∈ unit ' ' :: v, isPlain c = true := by
  intro c hc
  rcases List.mem_cons.mp hc with rfl | hc
  · decide
  · exact h c hc

theorem contained_iff (h : ∀ c ∈ v, isPlain c = true) : Contained v ↔ Splits v ∧ isDeclarationValue [] (tokens v) = true := by
  refine and_congr_left fun _ => ⟨fun hv => ?_,fun hv => (hv []).trans (by rw [tokens_semicolon]; rfl)⟩
  rcases splits_or_crossed (plain_backslash h) (plain_slash h) with hsplits | hcrossed
  · exact hsplits
  · exact absurd (texts_tokens (plain_slash h)) (hcrossed [] _ _ hv)

/-- Blanks in front do not matter for where a value ends. -/
theorem splits_blank {c : CodeUnit} (hc : isBlank c = true) : Splits (c :: v) ↔ Splits (v.dropWhile isBlank) := by
  have hspan : ∀ r, (v ++ SEMICOLON :: r).takeWhile isBlank = v.takeWhile isBlank ∧
      (v ++ SEMICOLON :: r).dropWhile isBlank = v.dropWhile isBlank ++ SEMICOLON :: r := by
    intro r
    have hrun := Scanner.within_spanWhile (z := SEMICOLON) (p := isBlank) (a := v) (by decide) r
    exact ⟨congrArg Scanned.text hrun,congrArg Scanned.rest hrun⟩
  refine forall_congr' fun r => ?_
  rw [List.cons_append,tokens_blank hc,tokens_blank hc,(hspan r).1,(hspan r).2,List.cons_append,List.cons_inj_right]

theorem splits_dropWhile (v : JsString) : Splits v ↔ Splits (v.dropWhile isBlank) := by
  cases v with
  | nil => exact Iff.rfl
  | cons c v =>
    cases hc : isBlank c with
    | true => rw [splits_blank hc,List.dropWhile_cons_of_pos hc]
    | false => rw [List.dropWhile_cons_of_neg (by simp [hc])]

theorem splits_space (v : JsString) : Splits (unit ' ' :: v) ↔ Splits v := by
  rw [splits_blank (by decide),← splits_dropWhile]

theorem dropWhile_tokens (v : JsString) :
    (tokens v).dropWhile Token.isBlank = (tokens (v.dropWhile isBlank)).dropWhile Token.isBlank := by
  cases v with
  | nil => rfl
  | cons c v =>
    cases hc : isBlank c with
    | true => rw [tokens_blank hc,List.dropWhile_cons_of_pos hc,List.dropWhile_cons_of_pos rfl]
    | false => rw [List.dropWhile_cons_of_neg (by simp [hc])]

theorem trimBlanks_space (v : JsString) : trimBlanks (tokens (unit ' ' :: v)) = trimBlanks (tokens v) := by
  have hspace : isBlank (unit ' ') = true := by decide
  rw [trimBlanks,trimBlanks,dropWhile_tokens,dropWhile_tokens v,List.dropWhile_cons_of_pos hspace]

theorem isDeclarationValue_tokens (v : JsString) :
    isDeclarationValue [] (tokens v) = isDeclarationValue [] (tokens (v.dropWhile isBlank)) := by
  cases v with
  | nil => rfl
  | cons c v =>
    cases hc : isBlank c with
    | true => rw [tokens_blank hc,List.dropWhile_cons_of_pos hc,isDeclarationValue_blank rfl]
    | false => rw [List.dropWhile_cons_of_neg (by simp [hc])]

theorem isDeclarationValue_space (v : JsString) :
    isDeclarationValue [] (tokens (unit ' ' :: v)) = isDeclarationValue [] (tokens v) := by
  have hspace : isBlank (unit ' ') = true := by decide
  rw [isDeclarationValue_tokens,isDeclarationValue_tokens v,List.dropWhile_cons_of_pos hspace]

theorem mem_of_mem_token {s : JsString} (hs : SLASH ∉ s) {t : Token} (ht : t ∈ tokens s) {c : CodeUnit} (hc : c ∈ t.text) : c ∈ s := by
  rw [← texts_tokens hs]
  exact List.mem_flatMap.mpr ⟨t,ht,hc⟩

/-- No token of a plain value ends a declaration or a block, or is an exclamation mark. -/
theorem plain_tokens (h : ∀ c ∈ v, isPlain c = true) {t : Token} (ht : t ∈ tokens v) :
    t.kind ≠ .semicolon ∧ t.kind ≠ .closing .curly ∧ isBang t = false := by
  have hunit : ∀ c ∈ t.text, isPlain c = true := fun c hc => h c (mem_of_mem_token (plain_slash h) ht hc)
  refine ⟨fun hkind => ?_,fun hkind => ?_,?_⟩
  · rw [text_of_semicolon ht hkind] at hunit
    exact absurd (hunit _ List.mem_cons_self) (by decide)
  · rw [text_of_closing_curly ht hkind] at hunit
    exact absurd (hunit _ List.mem_cons_self) (by decide)
  · rw [isBang,beq_eq_false_iff_ne]
    rintro rfl
    exact absurd (hunit _ List.mem_cons_self) (by decide)

end Values

section Declarations
variable {d : JsString × JsString} {X : JsString}

def leading (name : JsString) : List Token := [⟨.blank,js "\n  "⟩,⟨.word .ident,name⟩,⟨.colon,[COLON]⟩]

theorem tokens_declarationText (hname : IsCustomName d.1) (X : JsString) :
    tokens (declarationText d ++ X) = leading d.1 ++ tokens (unit ' ' :: d.2 ++ SEMICOLON :: X) := by
  obtain ⟨c,m,hd,hm⟩ := hname
  have htext : declarationText d ++
    X = LF :: unit ' ' :: unit ' ' :: HYPHEN :: (HYPHEN :: c :: m ++ COLON :: (unit ' ' :: d.2 ++ SEMICOLON :: X)) := by
    have hindent : js "\n  " = [LF,unit ' ',unit ' '] := by decide
    have hcolon : js ": " = [COLON,unit ' '] := by decide
    simp [declarationText,hd,hindent,hcolon]
  have hunits : ∀ e ∈ HYPHEN :: c :: m, isIdent e = true := by
    intro e he
    rcases List.mem_cons.mp he with rfl | he
    · decide
    · exact hm e he
  have hblank : isBlank HYPHEN = false := by decide
  have hspace : isBlank (unit ' ') = true := by decide
  have hindent : js "\n  " = [LF,unit ' ',unit ' '] := by decide
  rw [htext,tokens_blank (by decide)]
  simp only [List.takeWhile_cons_of_pos hspace,List.dropWhile_cons_of_pos hspace,
    List.takeWhile_cons_of_neg (Bool.eq_false_iff.mp hblank),List.dropWhile_cons_of_neg (Bool.eq_false_iff.mp hblank)]
  rw [tokens_name (.inr ⟨rfl,c,m,rfl⟩) hunits (by decide) (by decide) (by decide),tokens_colon,leading,hd,hindent]
  rfl

theorem name_custom {name : JsString} (hname : IsCustomName name) : (⟨.word .ident,name⟩ : Token).name = name := by
  have hself : ∀ s : JsString, BACKSLASH ∉ s → unescape 0 s = s := by
    intro s hs
    induction s with
    | nil => rfl
    | cons c s ih =>
      rw [List.mem_cons,not_or] at hs
      rw [unescape,if_neg (Ne.symm hs.1),ih hs.2]
  obtain ⟨c,m,rfl,hm⟩ := hname
  apply hself
  intro hmem
  rcases List.mem_cons.mp hmem with h | hmem
  · exact absurd h (by decide)
  · rcases List.mem_cons.mp hmem with h | hmem
    · exact absurd h (by decide)
    · exact absurd (hm _ hmem) (by decide)

theorem leading_kinds (name : JsString) : ∀ t ∈ leading name, t.kind ≠ .closing .curly := by
  intro t ht
  simp only [leading,List.mem_cons,List.not_mem_nil,or_false] at ht
  rcases ht with rfl | rfl | rfl <;> exact fun h => by cases h

/-- The first declaration of a block goes on up to a semicolon in no bracket. -/
theorem items_leading (hname : IsCustomName d.1) (C : List Token) :
    items.all (leading d.1 ++ C) =
      .declaration ⟨d.1,(splitImportant (trimBlanks (untilTop .semicolon [] C).1)).1,
        (splitImportant (trimBlanks (untilTop .semicolon [] C).1)).2⟩ :: items.all (untilTop .semicolon [] C).2 := by
  have hcolon : untilTop .semicolon [] (⟨.colon,[COLON]⟩ :: C) =
      (⟨.colon,[COLON]⟩ :: (untilTop .semicolon [] C).1,(untilTop .semicolon [] C).2) := by
    rw [untilTop,if_neg (by simp)]
    rfl
  rw [leading,List.cons_append,List.cons_append,List.singleton_append,items_skip (.inl rfl),items_ident rfl,hcolon,
    declaration_colon rfl,name_custom hname]
  rfl

variable (hname : IsCustomName d.1) (hplain : ∀ c ∈ d.2, isPlain c = true)
include hname hplain

/-- A value that stays within its declaration is read as it is meant, and the block goes on behind it. -/
theorem block_contained (hd : Contained d.2) (X : JsString) :
    items.all (simpleBlock (tokens (declarationText d ++ X))).1 = declared d :: items.all (simpleBlock (tokens X)).1 ∧
    (simpleBlock (tokens (declarationText d ++ X))).2 = (simpleBlock (tokens X)).2 := by
  obtain ⟨hsplits,hvalue⟩ := (contained_iff hplain).mp hd
  have hfold : (tokens (unit ' ' :: d.2)).foldl nest [] = [] :=
    foldl_nest_of_isDeclarationValue ((isDeclarationValue_space d.2).trans hvalue)
  have hkinds : ∀ t ∈ tokens (unit ' ' :: d.2), t.kind ≠ .semicolon ∧ t.kind ≠ .closing .curly ∧ isBang t = false :=
    fun t ht => plain_tokens (plain_space hplain) ht
  have htokens : tokens (declarationText d ++ X) =
      (leading d.1 ++ tokens (unit ' ' :: d.2) ++ [⟨.semicolon,[SEMICOLON]⟩]) ++ tokens X := by
    rw [tokens_declarationText hname,(splits_space d.2).mpr hsplits X,tokens_semicolon]
    simp
  have hpass : ∀ t ∈ leading d.1 ++ tokens (unit ' ' :: d.2) ++ ([⟨.semicolon,[SEMICOLON]⟩] : List Token), t.kind ≠ .closing .curly := by
    intro t ht
    rcases List.mem_append.mp ht with ht | ht
    · rcases List.mem_append.mp ht with ht | ht
      · exact leading_kinds d.1 t ht
      · exact (hkinds t ht).2.1
    · rw [List.mem_singleton.mp ht]
      exact fun h => by cases h
  have hclosed : (leading d.1 ++ tokens (unit ' ' :: d.2) ++ ([⟨.semicolon,[SEMICOLON]⟩] : List Token)).foldl nest [] = [] := by
    rw [List.foldl_append,List.foldl_append]
    have hleading : (leading d.1).foldl nest [] = [] := rfl
    rw [hleading,hfold]
    rfl
  have hcontent := untilTop_pass hpass [] (tokens X)
  rw [hclosed,← htokens] at hcontent
  rw [simpleBlock,simpleBlock,hcontent]
  refine ⟨?_,rfl⟩
  have huntil : untilTop .semicolon []
    (tokens (unit ' ' :: d.2) ++ ⟨.semicolon,[SEMICOLON]⟩ :: (untilTop (.closing .curly) [] (tokens X)).1) =
      (tokens (unit ' ' :: d.2),⟨.semicolon,[SEMICOLON]⟩ :: (untilTop (.closing .curly) [] (tokens X)).1) := by
    have hstop : ∀ C, untilTop .semicolon [] (⟨.semicolon,[SEMICOLON]⟩ :: C) = ([],⟨.semicolon,[SEMICOLON]⟩ :: C) := untilTop_stop rfl
    rw [untilTop_pass (fun t ht => (hkinds t ht).1),hfold,hstop,List.append_nil]
  rw [List.append_assoc,List.append_assoc,List.singleton_append,items_leading hname,huntil,trimBlanks_space,
    splitImportant_plain (fun t ht => (plain_tokens hplain (mem_of_mem_trimBlanks ht)).2.2),items_skip (.inr rfl)]
  rfl

omit hname hplain in
/-- Of two divisions at a unit, one at a semicolon, neither is before the other. -/
theorem eq_of_append_stop {P Q A : JsString} {h : CodeUnit} (heq : P ++ h :: Q = A ++ SEMICOLON :: X) (hP : SEMICOLON ∉ P) (hA : h ∉ A) :
    P = A := by
  rcases List.append_eq_append_iff.mp heq with ⟨l,hl,hrest⟩ | ⟨l,hl,hrest⟩
  · cases l with
    | nil => rw [hl,List.append_nil]
    | cons c l =>
      cases hrest
      exact absurd (hl ▸ List.mem_append_right _ List.mem_cons_self) hA
  · cases l with
    | nil => rw [hl,List.append_nil]
    | cons c l =>
      cases hrest
      exact absurd (hl ▸ List.mem_append_right _ List.mem_cons_self) hP

/-- Where the first declaration is read as it is meant, no token takes the end of its value with it. -/
theorem splits_of_declared (hX : SLASH ∉ X) {rest : List Item}
    (h : items.all (simpleBlock (tokens (declarationText d ++ X))).1 = declared d :: rest) : Splits d.2 := by
  have hspace := plain_space hplain
  obtain ⟨C,hC⟩ : ∃ C, untilTop (.closing .curly) [] (tokens (unit ' ' :: d.2 ++ SEMICOLON :: X)) = C := ⟨_,rfl⟩
  obtain ⟨W,hW⟩ : ∃ W, untilTop .semicolon [] C.1 = W := ⟨_,rfl⟩
  have hpass := untilTop_pass (leading_kinds d.1) [] (tokens (unit ' ' :: d.2 ++ SEMICOLON :: X))
  have hleading : (leading d.1).foldl nest [] = [] := rfl
  rw [simpleBlock,tokens_declarationText hname,hpass,hleading,hC,items_leading hname,hW,declared] at h
  obtain ⟨hvalue,-⟩ := List.cons.inj h
  simp only [Item.declaration.injEq,Declaration.mk.injEq,true_and] at hvalue
  have htrim : trimBlanks W.1 = trimBlanks (tokens d.2) := (splitImportant_false hvalue.2).symm.trans hvalue.1
  have hslash : SLASH ∉ unit ' ' :: d.2 ++ SEMICOLON :: X := by
    intro hmem
    rcases List.mem_append.mp hmem with hmem | hmem
    · exact plain_slash hspace hmem
    · rcases List.mem_cons.mp hmem with hmem | hmem
      · exact absurd hmem (by decide)
      · exact hX hmem
  have hdivided : W.1 ++ (W.2 ++ C.2) = tokens (unit ' ' :: d.2 ++ SEMICOLON :: X) := by
    rw [← List.append_assoc,← hW,untilTop_append,← hC,untilTop_append]
  -- A semicolon in the value would be one of a token that is no blank.
  have hwithout : SEMICOLON ∉ texts W.1 := by
    intro hmem
    obtain ⟨t,ht,hunit⟩ := List.mem_flatMap.mp hmem
    have hkind : t.kind ≠ .blank := by
      intro hkind
      have hread : t ∈ tokens (unit ' ' :: d.2 ++ SEMICOLON :: X) := hdivided ▸ List.mem_append_left _ ht
      exact absurd (text_of_blank hread hkind _ hunit) (by decide)
    have hown : t ∈ tokens d.2 := mem_of_mem_trimBlanks (htrim ▸ mem_trimBlanks ht hkind)
    exact absurd (hplain _ (mem_of_mem_token (plain_slash hplain) hown hunit)) (by decide)
  have htexts := congrArg texts hdivided
  rw [texts_append,texts_tokens hslash] at htexts
  have hvalue : texts W.1 = unit ' ' :: d.2 := by
    have hstop : ∀ t ∈ (W.2 ++ C.2).head?, t.kind = .semicolon ∨ t.kind = .closing .curly := by
      intro t ht
      have hsemicolon := untilTop_rest .semicolon [] C.1
      have hcurly := untilTop_rest (.closing .curly) [] (tokens (unit ' ' :: d.2 ++ SEMICOLON :: X))
      rw [hW] at hsemicolon
      rw [hC] at hcurly
      cases hrest : W.2 with
      | nil =>
        rw [hrest] at ht
        exact .inr (hcurly t ht)
      | cons t' rest' =>
        rw [hrest] at ht hsemicolon
        exact .inl (hsemicolon t ht)
    cases hrest : W.2 ++ C.2 with
    | nil =>
      rw [hrest] at htexts
      refine absurd ?_ hwithout
      rw [show texts W.1 = unit ' ' :: d.2 ++ SEMICOLON :: X by simpa [texts] using htexts]
      simp
    | cons t behind =>
      have hread : t ∈ tokens (unit ' ' :: d.2 ++ SEMICOLON :: X) := by
        rw [← hdivided,hrest]
        simp
      rw [hrest] at htexts hstop
      rw [texts_cons] at htexts
      rcases hstop t rfl with hkind | hkind
      · rw [text_of_semicolon hread hkind] at htexts
        exact eq_of_append_stop htexts hwithout fun hmem => absurd (hspace _ hmem) (by decide)
      · rw [text_of_closing_curly hread hkind] at htexts
        exact eq_of_append_stop htexts hwithout fun hmem => absurd (hspace _ hmem) (by decide)
  rcases splits_or_crossed (plain_backslash hspace) (plain_slash hspace) with hsplits | hcrossed
  · exact (splits_space d.2).mp hsplits
  · exact absurd hvalue (hcrossed X _ _ hdivided.symm)

end Declarations

section Blocks
variable {ds : List (JsString × JsString)} {Y : JsString}

def blockText (ds : List (JsString × JsString)) (Y : JsString) : JsString :=
  ds.flatMap declarationText ++ LF :: CLOSE_CURLY :: Y

theorem blockText_cons (d : JsString × JsString) (ds : List (JsString × JsString)) (Y : JsString) :
    blockText (d :: ds) Y = declarationText d ++ blockText ds Y := by
  rw [blockText,blockText,List.flatMap_cons,List.append_assoc]

theorem slash_declarationText {d : JsString × JsString} (hname : IsCustomName d.1) (hplain : ∀ c ∈ d.2, isPlain c = true) :
    SLASH ∉ declarationText d := by
  obtain ⟨c,m,hd,hm⟩ := hname
  have hm' : SLASH ∉ c :: m := fun hmem => absurd (hm _ hmem) (by decide)
  have hindent : SLASH ∉ js "\n  " ++ [HYPHEN,HYPHEN] := by decide
  have hcolon : SLASH ∉ js ": " := by decide
  have hsemicolon : SLASH ∉ [SEMICOLON] := by decide
  have htext : declarationText d = (js "\n  " ++ [HYPHEN,HYPHEN]) ++ (c :: m) ++ js ": " ++ d.2 ++ [SEMICOLON] := by
    simp [declarationText,hd]
  rw [htext]
  simp only [List.mem_append,not_or]
  exact ⟨⟨⟨⟨not_or.mp (List.mem_append.not.mp hindent),hm'⟩,hcolon⟩,plain_slash hplain⟩,hsemicolon⟩

theorem slash_blockText (hnames : ∀ d ∈ ds, IsCustomName d.1) (hplain : ∀ d ∈ ds, ∀ c ∈ d.2, isPlain c = true) (hY : SLASH ∉ Y) :
    SLASH ∉ blockText ds Y := by
  induction ds with
  | nil =>
    intro hmem
    rcases List.mem_cons.mp hmem with h | hmem
    · exact absurd h (by decide)
    · rcases List.mem_cons.mp hmem with h | hmem
      · exact absurd h (by decide)
      · exact hY hmem
  | cons d ds ih =>
    rw [blockText_cons,List.mem_append,not_or]
    exact ⟨slash_declarationText (hnames d List.mem_cons_self) (hplain d List.mem_cons_self),
      ih (fun d hd => hnames d (List.mem_cons_of_mem _ hd)) fun d hd => hplain d (List.mem_cons_of_mem _ hd)⟩

theorem block_nil (Y : JsString) : simpleBlock (tokens (blockText [] Y)) = ([⟨.blank,[LF]⟩],tokens Y) := by
  have hcurly : isBlank CLOSE_CURLY = false := by decide
  have htokens : tokens (blockText [] Y) = ⟨.blank,[LF]⟩ :: ⟨.closing .curly,[CLOSE_CURLY]⟩ :: tokens Y := by
    change tokens (LF :: CLOSE_CURLY :: Y) = _
    rw [tokens_blank (by decide),List.takeWhile_cons_of_neg (Bool.eq_false_iff.mp hcurly),
      List.dropWhile_cons_of_neg (Bool.eq_false_iff.mp hcurly)]
    have hclose : punctuation CLOSE_CURLY = some (.closing .curly) := by decide
    rw [tokens_punctuation hclose]
  rw [htokens,simpleBlock,untilTop,if_neg (by simp)]
  dsimp only
  have hstop : ∀ C, untilTop (.closing .curly) [] (⟨.closing .curly,[CLOSE_CURLY]⟩ :: C) = ([],⟨.closing .curly,[CLOSE_CURLY]⟩ :: C) :=
    untilTop_stop rfl
  have hnest : nest [] ⟨.blank,[LF]⟩ = [] := rfl
  rw [hnest,hstop]
  rfl

/-- Values that stay within their declarations make a block that is read as it is meant. -/
theorem block_read (hnames : ∀ d ∈ ds, IsCustomName d.1) (hplain : ∀ d ∈ ds, ∀ c ∈ d.2, isPlain c = true)
    (h : ∀ d ∈ ds, Contained d.2) (Y : JsString) :
    items.all (simpleBlock (tokens (blockText ds Y))).1 = ds.map declared ∧ (simpleBlock (tokens (blockText ds Y))).2 = tokens Y := by
  induction ds with
  | nil =>
    rw [block_nil]
    exact ⟨items_skip (.inl rfl) [],rfl⟩
  | cons d ds ih =>
    obtain ⟨hitems,hrest⟩ := block_contained (hnames d List.mem_cons_self) (hplain d List.mem_cons_self)
      (h d List.mem_cons_self) (blockText ds Y)
    obtain ⟨hitems',hrest'⟩ := ih (fun d hd => hnames d (List.mem_cons_of_mem _ hd))
      (fun d hd => hplain d (List.mem_cons_of_mem _ hd)) fun d hd => h d (List.mem_cons_of_mem _ hd)
    rw [blockText_cons,hitems,hrest,hitems',hrest']
    exact ⟨rfl,rfl⟩

/-- In a block that is read as it is meant, every value stays within its declaration. -/
theorem contained_of_block (hnames : ∀ d ∈ ds, IsCustomName d.1) (hplain : ∀ d ∈ ds, ∀ c ∈ d.2, isPlain c = true)
    (hY : SLASH ∉ Y) (hread : items.all (simpleBlock (tokens (blockText ds Y))).1 = ds.map declared)
    (hvalues : ∀ d ∈ ds, isDeclarationValue [] (tokens d.2) = true) : ∀ d ∈ ds, Contained d.2 := by
  induction ds with
  | nil => exact fun d hd => absurd hd List.not_mem_nil
  | cons d ds ih =>
    have hname := hnames d List.mem_cons_self
    have hvalue := hplain d List.mem_cons_self
    have hnames' : ∀ d ∈ ds, IsCustomName d.1 := fun d hd => hnames d (List.mem_cons_of_mem _ hd)
    have hplain' : ∀ d ∈ ds, ∀ c ∈ d.2, isPlain c = true := fun d hd => hplain d (List.mem_cons_of_mem _ hd)
    rw [blockText_cons,List.map_cons] at hread
    have hd : Contained d.2 := (contained_iff hvalue).mpr
      ⟨splits_of_declared hname hvalue (slash_blockText hnames' hplain' hY) hread,hvalues d List.mem_cons_self⟩
    rw [(block_contained hname hvalue hd (blockText ds Y)).1] at hread
    have hds := ih hnames' hplain' (List.cons.inj hread).2 fun d hd => hvalues d (List.mem_cons_of_mem _ hd)
    intro d' hd'
    rcases List.mem_cons.mp hd' with rfl | hd'
    · exact hd
    · exact hds d' hd'

end Blocks

section Reading
variable {st : Style} {styles : List Style} {selector : JsString}

theorem Style.text_append (st : Style) (Y : JsString) :
    st.text ++ Y = st.selector ++ unit ' ' :: OPEN_CURLY :: blockText st.declarations Y := by
  simp [Style.text,blockText]

theorem trimBlanks_selector (h : IsSelector selector) : trimBlanks (tokens selector ++ [⟨.blank,[unit ' ']⟩]) = tokens selector := by
  have hstart : (tokens selector ++ ([⟨.blank,[unit ' ']⟩] : List Token)).dropWhile Token.isBlank = tokens selector ++
    [⟨.blank,[unit ' ']⟩] := by
    cases htokens : tokens selector with
    | nil => exact absurd htokens h.nonempty
    | cons t ts =>
      have hkind := (h.head t (by rw [htokens]; rfl)).1
      exact List.dropWhile_cons_of_neg (by simpa [Token.isBlank] using hkind)
  have hspace : Token.isBlank ⟨.blank,[unit ' ']⟩ = true := rfl
  rw [trimBlanks,hstart,List.rdropWhile_concat_pos _ _ _ hspace,List.rdropWhile_eq_self_iff]
  intro hne hblank
  exact h.last _ (List.getLast?_eq_some_getLast hne) (by simpa [Token.isBlank] using hblank)

/-- A style is a qualified rule with the block behind its selector. -/
theorem rules_style (h : IsSelector st.selector) (Y : JsString) :
    rules.all (tokens (st.text ++ Y)) =
      .qualified (tokens st.selector ++ [⟨.blank,[unit ' ']⟩]) (simpleBlock (tokens (blockText st.declarations Y))).1 ::
        rules.all (simpleBlock (tokens (blockText st.declarations Y))).2 := by
  have hread : tokens (st.text ++ Y) = tokens st.selector ++ ⟨.blank,[unit ' ']⟩ :: ⟨.opening .curly,[OPEN_CURLY]⟩ ::
      tokens (blockText st.declarations Y) := by rw [Style.text_append,h.splits]
  have huntil : untilTop (.opening .curly) [] (tokens (st.text ++ Y)) =
      (tokens st.selector ++ [⟨.blank,[unit ' ']⟩],⟨.opening .curly,[OPEN_CURLY]⟩ :: tokens (blockText st.declarations Y)) := by
    have hpass : ∀ t ∈ tokens st.selector ++ ([⟨.blank,[unit ' ']⟩] : List Token), t.kind ≠ .opening .curly := by
      intro t ht
      rcases List.mem_append.mp ht with ht | ht
      · exact h.block t ht
      · rw [List.mem_singleton.mp ht]
        exact fun h => by cases h
    have hstop : ∀ C, untilTop (.opening .curly) [] (⟨.opening .curly,[OPEN_CURLY]⟩ :: C) = ([],⟨.opening .curly,[OPEN_CURLY]⟩ :: C) :=
      untilTop_stop rfl
    have hclosed : (tokens st.selector ++ ([⟨.blank,[unit ' ']⟩] : List Token)).foldl nest [] = [] := by
      rw [List.foldl_append,h.closed]
      rfl
    have happend : tokens (st.text ++ Y) = (tokens st.selector ++ ([⟨.blank,[unit ' ']⟩] : List Token)) ++
        ⟨.opening .curly,[OPEN_CURLY]⟩ :: tokens (blockText st.declarations Y) := by
      rw [hread]
      simp
    rw [happend,untilTop_pass hpass,hclosed,hstop,List.append_nil]
  cases htokens : tokens (st.text ++ Y) with
  | nil =>
    rw [htokens] at huntil
    cases congrArg Prod.snd huntil
  | cons t ts =>
    have hhead : t ∈ (tokens st.selector).head? := by
      rw [htokens] at hread
      cases hselector : tokens st.selector with
      | nil => exact absurd hselector h.nonempty
      | cons t' ts' =>
        rw [hselector] at hread
        exact congrArg some (List.cons.inj hread).1.symm
    obtain ⟨hblank,hcdo,hcdc,hat⟩ := h.head t hhead
    rw [htokens] at huntil
    rw [rules.all_cons]
    simp only [rules,hblank,hcdo,hcdc,hat,or_self,if_false,huntil,Option.toList_some,List.singleton_append]

/-- The text behind a style. -/
def behind (styles : List Style) : JsString := if styles = [] then [] else js "\n\n" ++ sheetText styles

theorem sheetText_cons (st : Style) (styles : List Style) : sheetText (st :: styles) = st.text ++ behind styles := by
  cases styles with
  | nil => simp [sheetText,behind]
  | cons st' styles => simp [sheetText,behind,List.intercalate]

theorem rules_blank {c : CodeUnit} (hc : isBlank c = true) (s : JsString) : rules.all (tokens (c :: s)) = rules.all (tokens s) := by
  have hdrop : ∀ s : JsString, rules.all (tokens (s.dropWhile isBlank)) = rules.all (tokens s) := by
    intro s
    cases s with
    | nil => rfl
    | cons d s =>
      cases hd : isBlank d with
      | true => rw [List.dropWhile_cons_of_pos hd,tokens_blank hd,rules_skip rfl]
      | false => rw [List.dropWhile_cons_of_neg (by simp [hd])]
  rw [tokens_blank hc,rules_skip rfl,hdrop]

theorem rules_behind (styles : List Style) : rules.all (tokens (behind styles)) = rules.all (tokens (sheetText styles)) := by
  have hlines : js "\n\n" = [LF,LF] := by decide
  cases styles with
  | nil => rfl
  | cons st styles =>
    rw [behind,if_neg (List.cons_ne_nil _ _),hlines]
    change rules.all (tokens (LF :: LF :: sheetText (st :: styles))) = _
    rw [rules_blank (by decide),rules_blank (by decide)]

theorem slash_behind (h : ∀ st ∈ styles, st.WellNamed) : SLASH ∉ behind styles := by
  induction styles with
  | nil => exact List.not_mem_nil
  | cons st styles ih =>
    have hst := h st List.mem_cons_self
    have hrest := ih fun st hst => h st (List.mem_cons_of_mem _ hst)
    have hlines : SLASH ∉ js "\n\n" := by decide
    rw [behind,if_neg (List.cons_ne_nil _ _),sheetText_cons,Style.text_append,List.mem_append,List.mem_append,not_or,not_or]
    refine ⟨hlines,hst.selector.slash,fun hmem => ?_⟩
    rcases List.mem_cons.mp hmem with hmem | hmem
    · exact absurd hmem (by decide)
    · rcases List.mem_cons.mp hmem with hmem | hmem
      · exact absurd hmem (by decide)
      · exact slash_blockText hst.names hst.values hrest hmem

/-- A stylesheet is read as it is meant, with well-formed values, if and only if every value stays within
its declaration. -/
theorem sheet_iff (h : ∀ st ∈ styles, st.WellNamed) :
    ((rules.all (tokens (sheetText styles))).map Rule.read = styles.map Style.meant ∧
      ∀ st ∈ styles, ∀ d ∈ st.declarations, isDeclarationValue [] (tokens d.2) = true) ↔
    ∀ st ∈ styles, ∀ d ∈ st.declarations, Contained d.2 := by
  induction styles with
  | nil => exact iff_of_true ⟨rfl,fun st hst => absurd hst List.not_mem_nil⟩ fun st hst => absurd hst List.not_mem_nil
  | cons st styles ih =>
    have hst := h st List.mem_cons_self
    have hrest : ∀ st ∈ styles, st.WellNamed := fun st hst => h st (List.mem_cons_of_mem _ hst)
    rw [sheetText_cons,rules_style hst.selector,List.map_cons,List.map_cons,Rule.read,trimBlanks_selector hst.selector,Style.meant,
      List.forall_mem_cons,List.forall_mem_cons,← ih hrest,List.cons.injEq]
    constructor
    · rintro ⟨⟨hfirst,hread⟩,hvalues,hvalues'⟩
      have hcontained := contained_of_block hst.names hst.values (slash_behind hrest) (SheetRule.style.inj hfirst).2 hvalues
      rw [(block_read hst.names hst.values hcontained (behind styles)).2,rules_behind] at hread
      exact ⟨hcontained,hread,hvalues'⟩
    · rintro ⟨hcontained,hread,hvalues'⟩
      obtain ⟨hitems,hbehind⟩ := block_read hst.names hst.values hcontained (behind styles)
      rw [hitems,hbehind,rules_behind]
      exact ⟨⟨rfl,hread⟩,fun d hd => (hcontained d hd).2,hvalues'⟩

end Reading

section Preprocessing
variable {a b v : JsString} {st : Style} {styles : List Style}

/-- Units that are no line end but LF, and not NUL. -/
def isClean (c : CodeUnit) : Bool := c != 13 && c != 12 && c != 0

theorem preprocess_clean (ha : ∀ c ∈ a, isClean c = true) (b : JsString) : preprocess (a ++ b) = a ++ preprocess b := by
  induction a with
  | nil => rfl
  | cons c a ih =>
    have hc : c ≠ 13 ∧ c ≠ 12 ∧ c ≠ 0 := by simpa [isClean,and_assoc] using ha c List.mem_cons_self
    rw [List.cons_append,preprocess,if_neg hc.1,if_neg hc.2.1,if_neg hc.2.2,ih fun c hc => ha c (List.mem_cons_of_mem _ hc)]
    rfl

theorem preprocess_append (a : JsString) (hb : b.head? ≠ some LF) : preprocess (a ++ b) = preprocess a ++ preprocess b := by
  induction a with
  | nil => rfl
  | cons c a ih =>
    have hhead : (a ++ b).head? = some LF ↔ a.head? = some LF := by
      cases a with
      | nil => simpa using hb
      | cons d a => rfl
    rw [List.cons_append,preprocess,preprocess,ih]
    simp only [hhead]
    split
    · split
      · rfl
      · rfl
    · split
      · rfl
      · split
        · rfl
        · rfl

theorem mem_preprocess {c : CodeUnit} (hc : c ∈ preprocess v) : c ∈ v ∨ c = LF ∨ c = 0xFFFD := by
  induction v with
  | nil => cases hc
  | cons d v ih =>
    rw [preprocess] at hc
    have hbehind : ∀ {e : CodeUnit}, c ∈ e :: preprocess v → c = e ∨ c ∈ d :: v ∨ c = LF ∨ c = 0xFFFD := by
      intro e he
      rcases List.mem_cons.mp he with he | he
      · exact .inl he
      · exact .inr ((ih he).imp_left (List.mem_cons_of_mem d))
    split at hc
    · split at hc
      · exact (ih hc).imp_left (List.mem_cons_of_mem d)
      · exact (hbehind hc).elim (fun h => .inr (.inl h)) id
    · split at hc
      · exact (hbehind hc).elim (fun h => .inr (.inl h)) id
      · split at hc
        · exact (hbehind hc).elim (fun h => .inr (.inr h)) id
        · exact (hbehind hc).elim (fun h => .inl (h ▸ List.mem_cons_self)) id

theorem preprocess_plain (h : ∀ c ∈ v, isPlain c = true) : ∀ c ∈ preprocess v, isPlain c = true := by
  intro c hc
  rcases mem_preprocess hc with hc | rfl | rfl
  · exact h c hc
  · decide
  · decide

def Style.preprocessed (st : Style) : Style := { st with declarations := st.declarations.map fun d => (d.1,preprocess d.2) }

theorem clean_isIdent {c : CodeUnit} (h : isIdent c = true) : isClean c = true := by
  have hcr : c ≠ 13 := ne_of_isIdent h (by decide)
  have hff : c ≠ 12 := ne_of_isIdent h (by decide)
  have hnul : c ≠ 0 := ne_of_isIdent h (by decide)
  simp [isClean,hcr,hff,hnul]

theorem preprocess_declarationText {d : JsString × JsString} (hname : IsCustomName d.1) (X : JsString) :
    preprocess (declarationText d ++ X) = declarationText (d.1,preprocess d.2) ++ preprocess X := by
  have hindent : ∀ c ∈ js "\n  ", isClean c = true := by decide
  have hcolon : ∀ c ∈ js ": ", isClean c = true := by decide
  have hunits : ∀ c ∈ d.1, isClean c = true := by
    obtain ⟨e,m,hd,hm⟩ := hname
    intro c hc
    rw [hd] at hc
    rcases List.mem_cons.mp hc with rfl | hc
    · decide
    · rcases List.mem_cons.mp hc with rfl | hc
      · decide
      · exact clean_isIdent (hm c hc)
  have hsemicolon : (SEMICOLON :: X).head? ≠ some LF := by
    intro h
    exact absurd (Option.some.inj h) (by decide)
  have hlast : preprocess (SEMICOLON :: X) = SEMICOLON :: preprocess X :=
    preprocess_clean (a := [SEMICOLON]) (by decide) X
  simp only [declarationText,List.append_assoc]
  rw [preprocess_clean hindent,preprocess_clean hunits,preprocess_clean hcolon,List.singleton_append,
    preprocess_append d.2 hsemicolon,hlast]
  rfl

theorem preprocess_blockText {ds : List (JsString × JsString)} (hnames : ∀ d ∈ ds, IsCustomName d.1) (Y : JsString) :
    preprocess (blockText ds Y) = blockText (ds.map fun d => (d.1,preprocess d.2)) (preprocess Y) := by
  induction ds with
  | nil => exact preprocess_clean (a := [LF,CLOSE_CURLY]) (by decide) Y
  | cons d ds ih =>
    rw [blockText_cons,preprocess_declarationText (hnames d List.mem_cons_self),ih fun d hd => hnames d (List.mem_cons_of_mem _ hd),
      List.map_cons,blockText_cons]

/-- Of what is put together only the values change. -/
theorem preprocess_sheetText (hselectors : ∀ st ∈ styles, ∀ c ∈ st.selector, isClean c = true)
    (hnames : ∀ st ∈ styles, ∀ d ∈ st.declarations, IsCustomName d.1) :
    preprocess (sheetText styles) = sheetText (styles.map Style.preprocessed) := by
  have hbehind : ∀ styles : List Style, preprocess (behind styles) =
      if styles = [] then [] else js "\n\n" ++ preprocess (sheetText styles) := by
    intro styles
    rw [behind]
    split
    · rfl
    · exact preprocess_clean (by decide) _
  induction styles with
  | nil => rfl
  | cons st styles ih =>
    have hst := preprocess_clean (hselectors st List.mem_cons_self) (unit ' ' :: OPEN_CURLY :: blockText st.declarations (behind styles))
    have hbracket : ∀ s, preprocess (unit ' ' :: OPEN_CURLY :: s) = unit ' ' :: OPEN_CURLY :: preprocess s :=
      preprocess_clean (a := [unit ' ',OPEN_CURLY]) (by decide)
    have hrest := ih (fun st hst => hselectors st (List.mem_cons_of_mem _ hst)) fun st hst => hnames st (List.mem_cons_of_mem _ hst)
    rw [sheetText_cons,Style.text_append,hst,hbracket,preprocess_blockText (hnames st List.mem_cons_self),hbehind,hrest,List.map_cons,
      sheetText_cons,Style.text_append,behind]
    simp only [List.map_eq_nil_iff]
    rfl

/-- A stylesheet as it is written: it is read as it is meant, with well-formed values, if and only if
every value stays within its declaration. -/
theorem parseStylesheet_iff (hselectors : ∀ st ∈ styles, IsSelector st.selector ∧ ∀ c ∈ st.selector, isClean c = true)
    (hnames : ∀ st ∈ styles, ∀ d ∈ st.declarations, IsCustomName d.1)
    (hvalues : ∀ st ∈ styles, ∀ d ∈ st.declarations, ∀ c ∈ d.2, isPlain c = true) :
    (parseStylesheet (sheetText styles) = styles.map (fun st => st.preprocessed.meant) ∧
      ∀ st ∈ styles, ∀ d ∈ st.declarations, isDeclarationValue [] (tokens (preprocess d.2)) = true) ↔
    ∀ st ∈ styles, ∀ d ∈ st.declarations, Contained (preprocess d.2) := by
  have hwell : ∀ st ∈ styles.map Style.preprocessed, st.WellNamed := by
    intro st' hst'
    obtain ⟨st,hst,rfl⟩ := List.mem_map.mp hst'
    refine ⟨(hselectors st hst).1,fun d' hd' => ?_,fun d' hd' => ?_⟩
    · obtain ⟨d,hd,rfl⟩ := List.mem_map.mp hd'
      exact hnames st hst d hd
    · obtain ⟨d,hd,rfl⟩ := List.mem_map.mp hd'
      exact preprocess_plain (hvalues st hst d hd)
  have hsheet := sheet_iff hwell
  rw [← preprocess_sheetText (fun st hst => (hselectors st hst).2) hnames] at hsheet
  simp only [List.forall_mem_map,List.map_map,Style.preprocessed] at hsheet
  exact hsheet

end Preprocessing

end JustMail.Foundation.Css
