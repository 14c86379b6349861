import JustMail.Themes.ThemeEngine

/-! What a browser reads of compiled themes. The fonts are the only texts of a theme that can
leave their declarations. -/
namespace JustMail.Themes
open Foundation Css

def rampProperties (ns : JsString) (ramp : List JsString) : List (JsString × JsString) :=
  ramp.mapIdx fun i c => (js "--" ++ ns ++ js "-" ++ decimal (stop i),c)

/-- The custom properties of a theme with the values of its tokens. -/
def customProperties (tokens : ThemeTokens) : List (JsString × JsString) :=
  rampProperties (js "color-brand") tokens.brand ++ rampProperties (js "color-neutral") tokens.neutral ++
    [(js "--color-ok",tokens.ok),(js "--color-warn",tokens.warn),(js "--color-bad",tokens.bad),
      (js "--font-sans",tokens.fontSans),(js "--font-mono",tokens.fontMono),
      (js "--radius-md",tokens.radiusBase.text ++ js "px"),(js "--radius-lg",tokens.radiusLg.text ++ js "px")]

def Block.style (b : Block) : Style := ⟨selectorOf b.scopeOrRoot,customProperties b.tokens⟩

/-- Host names and UUIDs are letters, digits, low lines, hyphens and full stops. -/
def Scope.Named (scope : Scope) : Prop := ∀ id, scope.id = some id → ∀ c ∈ id, isWord c = true ∨ c = HYPHEN ∨ c = DOT

/-- Every block is one rule with its selector and the declarations of its properties, each with its own value,
and all the values are well formed. -/
def Apart (blocks : List Block) : Prop :=
  parseStylesheet (compileThemes blocks) = blocks.map (fun b => b.style.preprocessed.meant) ∧
  ∀ b ∈ blocks, ∀ d ∈ customProperties b.tokens, isDeclarationValue [] (tokens (preprocess d.2)) = true

section Text
variable {α : Type}

/-- Parts that are joined, and the separator before the first. -/
theorem append_intercalate (sep : JsString) {l : List JsString} (hl : l ≠ []) : sep ++ sep.intercalate l = l.flatMap (sep ++ ·) := by
  induction l with
  | nil => exact absurd rfl hl
  | cons a l ih =>
    cases l with
    | nil => simp [List.intercalate]
    | cons b l =>
      have hstep : sep ++ sep.intercalate (a :: b :: l) = sep ++ a ++ (sep ++ sep.intercalate (b :: l)) := by simp [List.intercalate]
      rw [hstep,ih (List.cons_ne_nil _ _)]
      rfl

/-- The line of a property, with the line end before it. -/
theorem line_eq (start name v : JsString) (h : js "\n" ++ start = js "\n  " ++ name ++ js ": ") :
    js "\n" ++ (start ++ v ++ js ";") = declarationText (name,v) := by
  have hsemicolon : js ";" = [SEMICOLON] := by decide
  rw [declarationText,← h,hsemicolon]
  simp

theorem rampCss_eq (ns : JsString) {ramp : List JsString} (hramp : ramp ≠ []) :
    js "\n" ++ rampCss ns ramp = (rampProperties ns ramp).flatMap declarationText := by
  have hline : ∀ i c, js "\n" ++ (js "  --" ++ ns ++ js "-" ++ decimal (stop i) ++ js ": " ++ c ++ js ";") =
      declarationText (js "--" ++ ns ++ js "-" ++ decimal (stop i),c) := by
    intro i c
    have hstart : js "\n" ++ js "  --" = js "\n  " ++ js "--" := by decide
    refine line_eq _ _ c ?_
    rw [← List.append_assoc,← List.append_assoc,← List.append_assoc,← List.append_assoc,hstart]
    simp
  have hlines : (ramp.mapIdx fun i c => js "  --" ++ ns ++ js "-" ++ decimal (stop i) ++ js ": " ++ c ++ js ";") ≠ [] := by
    simpa using hramp
  rw [rampCss,append_intercalate _ hlines,rampProperties,List.mapIdx_eq_zipIdx_map,List.mapIdx_eq_zipIdx_map,List.flatMap_map,
    List.flatMap_map]
  exact congrArg (ramp.zipIdx.flatMap ·) (funext fun p => hline p.2 p.1)

theorem compileTheme_eq {tokens : ThemeTokens} (hbrand : tokens.brand ≠ []) (hneutral : tokens.neutral ≠ []) (scope : Scope) :
    compileTheme tokens scope = (⟨selectorOf scope,customProperties tokens⟩ : Style).text := by
  have hpixels : ∀ start t : JsString, start ++ t ++ js "px;" = start ++ (t ++ js "px") ++ js ";" := by
    intro start t
    have hunit : js "px;" = js "px" ++ js ";" := by decide
    rw [hunit]
    simp
  have hend : js "\n" ++ js "\x7d" = [LF,CLOSE_CURLY] := by decide
  have hopen : js " \x7b" = [unit ' ',OPEN_CURLY] := by decide
  have hlines : compileTheme tokens scope = selectorOf scope ++ js " \x7b" ++ ((js "\n" ++ rampCss (js "color-brand") tokens.brand) ++
      ((js "\n" ++ rampCss (js "color-neutral") tokens.neutral) ++ ((js "\n" ++ (js "  --color-ok: " ++ tokens.ok ++ js ";")) ++
      ((js "\n" ++ (js "  --color-warn: " ++ tokens.warn ++ js ";")) ++ ((js "\n" ++ (js "  --color-bad: " ++ tokens.bad ++ js ";")) ++
      ((js "\n" ++ (js "  --font-sans: " ++ tokens.fontSans ++ js ";")) ++
        ((js "\n" ++ (js "  --font-mono: " ++ tokens.fontMono ++ js ";")) ++
      ((js "\n" ++ (js "  --radius-md: " ++ (tokens.radiusBase.text ++ js "px") ++ js ";")) ++
      ((js "\n" ++ (js "  --radius-lg: " ++ (tokens.radiusLg.text ++ js "px") ++ js ";")) ++ (js "\n" ++ js "\x7d")))))))))) := by
    rw [compileTheme,hpixels,hpixels]
    simp [List.intercalate]
  rw [hlines,rampCss_eq _ hbrand,rampCss_eq _ hneutral,hend,hopen,line_eq _ (js "--color-ok") _ (by decide),
    line_eq _ (js "--color-warn") _ (by decide),line_eq _ (js "--color-bad") _ (by decide),line_eq _ (js "--font-sans") _ (by decide),
    line_eq _ (js "--font-mono") _ (by decide),line_eq _ (js "--radius-md") _ (by decide),line_eq _ (js "--radius-lg") _ (by decide)]
  simp [Style.text,customProperties]

end Text

section Units
variable {c : CodeUnit} {v : JsString}

/-- A hexadecimal digit is a unit of a name, and no mark of any kind. -/
theorem hex_units (h : (hexVal c).isSome = true) : isIdent c = true ∧ isPlain c = true := by
  obtain ⟨d,hd⟩ := Option.isSome_iff_exists.mp h
  have hall : ∀ n < 103, (hexVal (UInt16.ofNat n)).isSome = true →
      isIdent (UInt16.ofNat n) = true ∧ isPlain (UInt16.ofNat n) = true := by decide +kernel
  have hc : c.toNat < 103 := by
    rcases hexVal_cases hd with h | h | h <;> omega
  have hunit := hall c.toNat hc
  rw [UInt16.ofNat_toNat] at hunit
  exact hunit h

theorem font_plain (h : isFontUnit c = true) : isPlain c = true := by
  rw [← Bool.not_eq_false]
  intro hplain
  have hcases : c = BACKSLASH ∨ c = SLASH ∨ c = SEMICOLON ∨ c = OPEN_CURLY ∨ c = CLOSE_CURLY ∨ c = unit '!' := by
    by_contra hnone
    simp only [not_or] at hnone
    simp [isPlain,hnone] at hplain
  rcases hcases with rfl | rfl | rfl | rfl | rfl | rfl <;> exact absurd h (by decide)

theorem digit_plain (h : isDigit c = true) : isPlain c = true ∧ isClean c = true :=
  of_isDigit (p := fun c => isPlain c = true ∧ isClean c = true) (by decide) h

/-- A color is a value of one token, without line ends. -/
theorem color_value (h : isHexColor v = true) : (∀ c ∈ v, isPlain c = true) ∧ Contained (preprocess v) := by
  cases v with
  | nil => cases h
  | cons c s =>
    simp only [isHexColor,Bool.and_eq_true,beq_iff_eq,List.all_eq_true] at h
    obtain ⟨⟨rfl,hlength⟩,hhex⟩ := h
    have hclean : ∀ c ∈ unit '#' :: s, isClean c = true := by
      intro c hc
      rcases List.mem_cons.mp hc with rfl | hc
      · decide
      · exact clean_isIdent (hex_units (hhex c hc)).1
    have hself : preprocess (unit '#' :: s) = unit '#' :: s := by
      have h := preprocess_clean hclean []
      rwa [List.append_nil,preprocess,List.append_nil] at h
    rw [hself]
    constructor
    · intro c hc
      rcases List.mem_cons.mp hc with rfl | hc
      · decide
      · exact (hex_units (hhex c hc)).2
    · cases s with
      | nil => cases hlength
      | cons d s => exact contained_hash fun c hc => (hex_units (hhex c hc)).1

theorem FiniteNumber.text_units (x : FiniteNumber) : ∀ c ∈ x.text, isPlain c = true ∧ isClean c = true := by
  obtain ⟨c,ds,fr,ex,htext,hc,hds,hfr,hex⟩ := x.text_shape
  rw [htext]
  intro u hu
  rcases List.mem_cons.mp hu with rfl | hu
  · rcases hc with hc | ⟨rfl,-⟩
    · exact digit_plain hc
    · decide
  rcases List.mem_append.mp hu with hu | hu
  · exact digit_plain (hds u hu)
  rcases List.mem_append.mp hu with hu | hu
  · rcases hfr with rfl | ⟨d,ds,rfl,hds⟩
    · cases hu
    · rcases List.mem_cons.mp hu with rfl | hu
      · decide
      · exact digit_plain (hds u hu)
  · rcases hex with rfl | ⟨sign,d,ds,rfl,hsign,hds⟩
    · cases hu
    · rcases List.mem_cons.mp hu with rfl | hu
      · decide
      rcases List.mem_cons.mp hu with rfl | hu
      · rcases hsign with rfl | rfl <;> decide
      · exact digit_plain (hds u hu)

/-- A radius is a value of one token, without line ends. -/
theorem radius_value (x : FiniteNumber) :
    (∀ c ∈ x.text ++ js "px", isPlain c = true) ∧ Contained (preprocess (x.text ++ js "px")) := by
  have hunit : ∀ c ∈ js "px", isPlain c = true ∧ isClean c = true := by decide
  have hunits : ∀ c ∈ x.text ++ js "px", isPlain c = true ∧ isClean c = true := by
    intro c hc
    rcases List.mem_append.mp hc with hc | hc
    · exact x.text_units c hc
    · exact hunit c hc
  have hself : preprocess (x.text ++ js "px") = x.text ++ js "px" := by
    have h := preprocess_clean (fun c hc => (hunits c hc).2) []
    rwa [List.append_nil,preprocess,List.append_nil] at h
  refine ⟨fun c hc => (hunits c hc).1,?_⟩
  obtain ⟨c,ds,fr,ex,htext,hc,hds,hfr,hex⟩ := x.text_shape
  have hpixels := contained_pixels hc hds hfr hex
  rw [hself,htext]
  simpa using hpixels

end Units

section Properties
variable {tokens : ThemeTokens} {d : JsString × JsString}

theorem isCustomName_ramp {ns : JsString} {d : CodeUnit} {m : JsString} (hns : ns = d :: m)
    (hunits : ∀ c ∈ ns, isIdent c = true) (n : Nat) :
    IsCustomName (js "--" ++ ns ++ js "-" ++ decimal n) := by
  have hhyphens : js "--" = [HYPHEN,HYPHEN] := by decide
  have hhyphen : ∀ c ∈ js "-", isIdent c = true := by decide
  refine ⟨d,m ++ js "-" ++ decimal n,by rw [hhyphens,hns]; simp,?_⟩
  have htext : d :: (m ++ js "-" ++ decimal n) = ns ++ (js "-" ++ decimal n) := by rw [hns]; simp
  rw [htext]
  intro c hc
  rcases List.mem_append.mp hc with hc | hc
  · exact hunits c hc
  rcases List.mem_append.mp hc with hc | hc
  · exact hhyphen c hc
  · exact of_isDigit (p := fun c => isIdent c = true) (by decide) (decimal_digits n c hc)

theorem mem_rampProperties {ns : JsString} {ramp : List JsString} (hd : d ∈ rampProperties ns ramp) :
    (∃ i, d.1 = js "--" ++ ns ++ js "-" ++ decimal (stop i)) ∧ d.2 ∈ ramp := by
  obtain ⟨i,hi,rfl⟩ := List.mem_mapIdx.mp hd
  exact ⟨⟨i,rfl⟩,List.getElem_mem hi⟩

theorem isCustomName_customProperties (hd : d ∈ customProperties tokens) : IsCustomName d.1 := by
  have hname : ∀ name : JsString, (∃ c m, name = HYPHEN :: HYPHEN :: c :: m ∧ (c :: m).all isIdent = true) → IsCustomName name := by
    rintro name ⟨c,m,rfl,hall⟩
    exact ⟨c,m,rfl,List.all_eq_true.mp hall⟩
  rcases List.mem_append.mp hd with hd | hd
  · rcases List.mem_append.mp hd with hd | hd
    · obtain ⟨⟨i,hi⟩,-⟩ := mem_rampProperties hd
      rw [hi]
      exact isCustomName_ramp (d := unit 'c') (m := js "olor-brand") (by decide) (by decide) _
    · obtain ⟨⟨i,hi⟩,-⟩ := mem_rampProperties hd
      rw [hi]
      exact isCustomName_ramp (d := unit 'c') (m := js "olor-neutral") (by decide) (by decide) _
  · simp only [List.mem_cons,List.not_mem_nil,or_false] at hd
    rcases hd with rfl | rfl | rfl | rfl | rfl | rfl | rfl
    · exact hname (js "--color-ok") ⟨unit 'c',js "olor-ok",by decide,by decide⟩
    · exact hname (js "--color-warn") ⟨unit 'c',js "olor-warn",by decide,by decide⟩
    · exact hname (js "--color-bad") ⟨unit 'c',js "olor-bad",by decide,by decide⟩
    · exact hname (js "--font-sans") ⟨unit 'f',js "ont-sans",by decide,by decide⟩
    · exact hname (js "--font-mono") ⟨unit 'f',js "ont-mono",by decide,by decide⟩
    · exact hname (js "--radius-md") ⟨unit 'r',js "adius-md",by decide,by decide⟩
    · exact hname (js "--radius-lg") ⟨unit 'r',js "adius-lg",by decide,by decide⟩

/-- The values of a theme are the fonts and values that stay within their declarations. -/
theorem customProperties_values (h : Accepted tokens) (hd : d ∈ customProperties tokens) :
    (∀ c ∈ d.2, isPlain c = true) ∧ (d.2 = tokens.fontSans ∨ d.2 = tokens.fontMono ∨ Contained (preprocess d.2)) := by
  have hfont : ∀ {v : JsString}, isFontText v = true → ∀ c ∈ v, isPlain c = true := by
    intro v hv c hc
    rw [isFontText,Bool.and_eq_true,List.all_eq_true] at hv
    exact font_plain (hv.2 c hc)
  have hcolor : ∀ {v : JsString}, v ∈ tokens.brand ++ tokens.neutral ++ [tokens.ok,tokens.warn,tokens.bad] →
      (∀ c ∈ v, isPlain c = true) ∧ (v = tokens.fontSans ∨ v = tokens.fontMono ∨ Contained (preprocess v)) := by
    intro v hv
    obtain ⟨hplain,hcontained⟩ := color_value (h.colors v hv)
    exact ⟨hplain,.inr (.inr hcontained)⟩
  rcases List.mem_append.mp hd with hd | hd
  · rcases List.mem_append.mp hd with hd | hd
    · exact hcolor (List.mem_append_left _ (List.mem_append_left _ (mem_rampProperties hd).2))
    · exact hcolor (List.mem_append_left _ (List.mem_append_right _ (mem_rampProperties hd).2))
  · simp only [List.mem_cons,List.not_mem_nil,or_false] at hd
    rcases hd with rfl | rfl | rfl | rfl | rfl | rfl | rfl
    · exact hcolor (List.mem_append_right _ (by simp))
    · exact hcolor (List.mem_append_right _ (by simp))
    · exact hcolor (List.mem_append_right _ (by simp))
    · exact ⟨hfont h.fontSans,.inl rfl⟩
    · exact ⟨hfont h.fontMono,.inr (.inl rfl)⟩
    · obtain ⟨hplain,hcontained⟩ := radius_value tokens.radiusBase
      exact ⟨hplain,.inr (.inr hcontained)⟩
    · obtain ⟨hplain,hcontained⟩ := radius_value tokens.radiusLg
      exact ⟨hplain,.inr (.inr hcontained)⟩

/-- An id that names an organization or a domain cannot leave the quotation marks of the selector. -/
theorem selectorOf_isSelector {scope : Scope} (h : scope.Named) :
    IsSelector (selectorOf scope) ∧ ∀ c ∈ selectorOf scope, isClean c = true := by
  have hid : ∀ c ∈ scope.id.getD [], isWord c = true ∨ c = HYPHEN ∨ c = DOT := by
    cases hid : scope.id with
    | none => exact fun c hc => absurd hc List.not_mem_nil
    | some id => exact h id hid
  have hnot : ∀ {d : CodeUnit}, isWord d = false → d ≠ HYPHEN → d ≠ DOT → d ∉ scope.id.getD [] := by
    intro d hword hhyphen hdot hmem
    rcases hid d hmem with h | h | h
    · rw [hword] at h
      cases h
    · exact hhyphen h
    · exact hdot h
  have hclean : ∀ c ∈ scope.id.getD [], isClean c = true := by
    intro c hc
    have hcr : c ≠ 13 := fun h => hnot (by decide) (by decide) (by decide) (h ▸ hc)
    have hff : c ≠ 12 := fun h => hnot (by decide) (by decide) (by decide) (h ▸ hc)
    have hnul : c ≠ 0 := fun h => hnot (by decide) (by decide) (by decide) (h ▸ hc)
    simp [isClean,hcr,hff,hnul]
  have hattribute : ∀ {start : JsString} {c : CodeUnit} {m : JsString}, start = unit '[' :: (c :: m ++ [unit '=',QUOTE]) →
      BeginsName c m → (∀ d ∈ c :: m, isIdent d = true) →
      IsSelector (start ++ scope.id.getD [] ++ js "\"]") ∧ ∀ d ∈ start ++ scope.id.getD [] ++ js "\"]", isClean d = true := by
    intro start c m hstart hbegins hm
    have hclose : js "\"]" = [QUOTE,unit ']'] := by decide
    have htext : start ++ scope.id.getD [] ++ js "\"]" = attributeSelector (c :: m) (scope.id.getD []) := by
      rw [hstart,hclose]
      simp [attributeSelector]
    refine ⟨?_,fun d hd => ?_⟩
    · rw [htext]
      exact isSelector_attribute hbegins hm (hnot (by decide) (by decide) (by decide)) (hnot (by decide) (by decide) (by decide))
        (hnot (by decide) (by decide) (by decide)) (hnot (by decide) (by decide) (by decide))
    · rw [hstart,hclose] at hd
      have hends : ∀ d ∈ [QUOTE,unit ']'], isClean d = true := by decide
      have hequals : ∀ d ∈ [unit '=',QUOTE], isClean d = true := by decide
      rcases List.mem_append.mp hd with hd | hd
      · rcases List.mem_append.mp hd with hd | hd
        · rcases List.mem_cons.mp hd with rfl | hd
          · decide
          · rcases List.mem_append.mp hd with hd | hd
            · exact clean_isIdent (hm d hd)
            · exact hequals d hd
        · exact hclean d hd
      · exact hends d hd
  unfold selectorOf
  cases scope.kind with
  | root =>
    have hclean : ∀ c ∈ js ":root", isClean c = true := by decide
    exact ⟨isSelector_root,hclean⟩
  | org => exact hattribute (c := unit 'd') (m := js "ata-org") (by decide) (.inl (by decide)) (by decide)
  | domain => exact hattribute (c := unit 'd') (m := js "ata-domain") (by decide) (.inl (by decide)) (by decide)

/-- Compiled themes stay apart if and only if no font leaves its declaration. -/
theorem compileThemes_iff (blocks : List Block) (hvalid : ∀ b ∈ blocks, assertValidTokens b.tokens = .ok ())
    (hscopes : ∀ b ∈ blocks, b.scopeOrRoot.Named) :
    Apart blocks ↔ ∀ b ∈ blocks, Contained (preprocess b.tokens.fontSans) ∧ Contained (preprocess b.tokens.fontMono) := by
  have haccepted : ∀ b ∈ blocks, Accepted b.tokens := fun b hb => (assertValidTokens_iff _).mp (hvalid b hb)
  have htext : compileThemes blocks = sheetText (blocks.map Block.style) := by
    rw [compileThemes,sheetText,List.map_map]
    refine congrArg _ (List.map_congr_left fun b hb => ?_)
    have hbrand : b.tokens.brand ≠ [] := List.ne_nil_of_length_pos (by rw [(haccepted b hb).brand]; decide)
    have hneutral : b.tokens.neutral ≠ [] := List.ne_nil_of_length_pos (by rw [(haccepted b hb).neutral]; decide)
    exact compileTheme_eq hbrand hneutral b.scopeOrRoot
  have hselectors : ∀ st ∈ blocks.map Block.style, IsSelector st.selector ∧ ∀ c ∈ st.selector, isClean c = true :=
    List.forall_mem_map.mpr fun b hb => selectorOf_isSelector (hscopes b hb)
  have hnames : ∀ st ∈ blocks.map Block.style, ∀ d ∈ st.declarations, IsCustomName d.1 :=
    List.forall_mem_map.mpr fun b hb d hd => isCustomName_customProperties hd
  have hvalues : ∀ st ∈ blocks.map Block.style, ∀ d ∈ st.declarations, ∀ c ∈ d.2, isPlain c = true :=
    List.forall_mem_map.mpr fun b hb d hd => (customProperties_values (haccepted b hb) hd).1
  have hsheet := parseStylesheet_iff hselectors hnames hvalues
  rw [← htext] at hsheet
  simp only [List.forall_mem_map,List.map_map] at hsheet
  refine hsheet.trans (forall_congr' fun b => forall_congr' fun hb => ?_)
  constructor
  · intro h
    exact ⟨h (js "--font-sans",b.tokens.fontSans) (List.mem_append_right _ (by simp)),
      h (js "--font-mono",b.tokens.fontMono) (List.mem_append_right _ (by simp))⟩
  · rintro ⟨hsans,hmono⟩ d hd
    rcases (customProperties_values (haccepted b hb) hd).2 with h | h | h
    · rw [h]
      exact hsans
    · rw [h]
      exact hmono
    · exact h

def pixels (n : Nat) : FiniteNumber := ⟨false,decimal n,(decimal n).length,decimal_digits n,decimal_ne_nil n⟩

def sampleTokens (fontSans : JsString) : ThemeTokens where
  brand := List.replicate 12 (js "#0a7Bff")
  neutral := List.replicate 12 (js "#111111")
  ok := js "#22c55e"
  warn := js "#f59e0b"
  bad := js "#ef4444"
  fontSans := fontSans
  fontMono := js "ui-monospace, monospace"
  radiusBase := pixels 6
  radiusLg := pixels 10

/-- The themes of two organizations, the first with the font. -/
def twoTenants (fontSans : JsString) : List Block :=
  [⟨sampleTokens fontSans,some ⟨.org,some (js "0f-1")⟩⟩,⟨sampleTokens (js "serif"),some ⟨.org,some (js "0f-2")⟩⟩]

theorem twoTenants_named (fontSans : JsString) : ∀ b ∈ twoTenants fontSans, b.scopeOrRoot.Named := by
  have hid : ∀ c ∈ js "0f-1" ++ js "0f-2", isWord c = true ∨ c = HYPHEN ∨ c = DOT := by decide
  intro b hb
  simp only [twoTenants,List.mem_cons,List.not_mem_nil,or_false] at hb
  rcases hb with rfl | rfl
  · rintro id ⟨⟩ c hc
    exact hid c (List.mem_append_left _ hc)
  · rintro id ⟨⟩ c hc
    exact hid c (List.mem_append_right _ hc)

theorem twoTenants_valid {fontSans : JsString} (h : isFontText fontSans = true) :
    ∀ b ∈ twoTenants fontSans, assertValidTokens b.tokens = .ok () := by
  have hcolors : ∀ c ∈ List.replicate 12 (js "#0a7Bff") ++ List.replicate 12 (js "#111111") ++ [js "#22c55e",js "#f59e0b",js "#ef4444"],
      isHexColor c = true := by decide +kernel
  have hmono : isFontText (js "ui-monospace, monospace") = true := by decide
  intro b hb
  rw [assertValidTokens_iff]
  simp only [twoTenants,List.mem_cons,List.not_mem_nil,or_false] at hb
  rcases hb with rfl | rfl
  · exact ⟨rfl,rfl,hcolors,h,hmono⟩
  · exact ⟨rfl,rfl,hcolors,by decide,hmono⟩

theorem compileThemes_quoted_font : Apart (twoTenants (js "\"Inter\", url(a), sans-serif")) :=
  (compileThemes_iff _ (twoTenants_valid (by decide)) (twoTenants_named _)).mpr (by decide +kernel)

/-- A parenthesis that is not closed takes what follows, up to the theme of the next organization. -/
theorem compileThemes_open_parenthesis :
    (∀ b ∈ twoTenants (js "a("), assertValidTokens b.tokens = .ok () ∧ b.scopeOrRoot.Named) ∧
    ¬ Apart (twoTenants (js "a(")) ∧ (parseStylesheet (compileThemes (twoTenants (js "a(")))).length = 1 := by
  have hlength : (parseStylesheet (compileThemes (twoTenants (js "a(")))).length = 1 := by decide +kernel
  refine ⟨fun b hb => ⟨twoTenants_valid (by decide) b hb,twoTenants_named _ b hb⟩,fun h => ?_,hlength⟩
  have hrules := congrArg List.length h.1
  rw [hlength,List.length_map] at hrules
  exact absurd hrules (by decide)

end Properties

end JustMail.Themes
