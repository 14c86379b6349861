import JustMail.Foundation.CssValues

/-! `@justmail/theme-engine`: theme tokens compiled to blocks of custom properties, one for each
scope, and the check that `ThemesService.upsert` makes of tokens. -/
namespace JustMail.Themes
open Foundation

/-- A finite number by its shortest digits and the position of the decimal point in them. -/
structure FiniteNumber where
  negative : Bool
  digits : JsString
  point : Int
  isDigits : ∀ c ∈ digits, isDigit c = true
  nonempty : digits ≠ []

/-- The exponent with its sign. -/
def exponentText (e : Int) : JsString := unit 'e' :: (if e < 0 then unit '-' else unit '+') :: decimal e.natAbs

/-- `String(x)`. -/
def FiniteNumber.text (x : FiniteNumber) : JsString :=
  let k : Int := x.digits.length
  let unsigned :=
    if k ≤ x.point ∧ x.point ≤ 21 then x.digits ++ List.replicate (x.point - k).toNat (unit '0')
    else if 0 < x.point ∧ x.point ≤ 21 then x.digits.take x.point.toNat ++ unit '.' :: x.digits.drop x.point.toNat
    else if -6 < x.point ∧ x.point ≤ 0 then js "0." ++ List.replicate (-x.point).toNat (unit '0') ++ x.digits
    else if k = 1 then x.digits ++ exponentText (x.point - 1)
    else x.digits.take 1 ++ unit '.' :: x.digits.drop 1 ++ exponentText (x.point - 1)
  if x.negative then unit '-' :: unsigned else unsigned

structure ThemeTokens where
  brand : List JsString
  neutral : List JsString
  ok : JsString
  warn : JsString
  bad : JsString
  fontSans : JsString
  fontMono : JsString
  radiusBase : FiniteNumber
  radiusLg : FiniteNumber

inductive ScopeKind where
  | org | domain | root
  deriving DecidableEq

structure Scope where
  kind : ScopeKind
  id : Option JsString

def selectorOf (scope : Scope) : JsString :=
  match scope.kind with
  | .root => js ":root"
  | .org => js "[data-org=\"" ++ scope.id.getD [] ++ js "\"]"
  | .domain => js "[data-domain=\"" ++ scope.id.getD [] ++ js "\"]"

/-- `i * 100 || 50`. -/
def stop (i : Nat) : Nat := if i * 100 = 0 then 50 else i * 100

def rampCss (ns : JsString) (ramp : List JsString) : JsString :=
  (js "\n").intercalate (ramp.mapIdx fun i c => js "  --" ++ ns ++ js "-" ++ decimal (stop i) ++ js ": " ++ c ++ js ";")

def compileTheme (tokens : ThemeTokens) (scope : Scope) : JsString :=
  (js "\n").intercalate [
    selectorOf scope ++ js " \x7b",
    rampCss (js "color-brand") tokens.brand,
    rampCss (js "color-neutral") tokens.neutral,
    js "  --color-ok: " ++ tokens.ok ++ js ";",
    js "  --color-warn: " ++ tokens.warn ++ js ";",
    js "  --color-bad: " ++ tokens.bad ++ js ";",
    js "  --font-sans: " ++ tokens.fontSans ++ js ";",
    js "  --font-mono: " ++ tokens.fontMono ++ js ";",
    js "  --radius-md: " ++ tokens.radiusBase.text ++ js "px;",
    js "  --radius-lg: " ++ tokens.radiusLg.text ++ js "px;",
    js "\x7d"]

/-- A block of `compileThemes`. -/
structure Block where
  tokens : ThemeTokens
  scope : Option Scope

def Block.scopeOrRoot (b : Block) : Scope := b.scope.getD ⟨.root,none⟩

def compileThemes (blocks : List Block) : JsString :=
  (js "\n\n").intercalate (blocks.map fun b => compileTheme b.tokens b.scopeOrRoot)

/-- `/^#[0-9a-fA-F]{6}$/`. -/
def isHexColor : JsString → Bool
  | [] => false
  | c :: s => c == unit '#' && s.length == 6 && s.all fun d => (hexVal d).isSome

def isFontUnit (c : CodeUnit) : Bool := isWord c || isSpace c || (js "\"'-,.()").contains c

/-- `/^[\w\s"'\-,.()]+$/`. -/
def isFontText (s : JsString) : Bool := s != [] && s.all isFontUnit

/-- The message of the error, where there is one. -/
def assertValidTokens (tokens : ThemeTokens) : Except JsString Unit :=
  if tokens.brand.length ≠ 12 then .error (js "brand ramp must have 12 stops")
  else if tokens.neutral.length ≠ 12 then .error (js "neutral ramp must have 12 stops")
  else
    match (tokens.brand ++ tokens.neutral ++ [tokens.ok,tokens.warn,tokens.bad]).find? fun c => !isHexColor c with
    | some c => .error (js "invalid color: " ++ c)
    | none =>
      if isFontText tokens.fontSans = false then .error (js "font_sans contains disallowed characters")
      else if isFontText tokens.fontMono = false then .error (js "font_mono contains disallowed characters")
      else .ok ()

/-- What the check lets pass. -/
structure Accepted (tokens : ThemeTokens) : Prop where
  brand : tokens.brand.length = 12
  neutral : tokens.neutral.length = 12
  colors : ∀ c ∈ tokens.brand ++ tokens.neutral ++ [tokens.ok,tokens.warn,tokens.bad], isHexColor c = true
  fontSans : isFontText tokens.fontSans = true
  fontMono : isFontText tokens.fontMono = true

theorem assertValidTokens_iff (tokens : ThemeTokens) : assertValidTokens tokens = .ok () ↔ Accepted tokens := by
  unfold assertValidTokens
  constructor
  · intro h
    split at h
    · cases h
    split at h
    · cases h
    rename_i hbrand hneutral
    split at h
    · cases h
    rename_i hcolors
    split at h
    · cases h
    split at h
    · cases h
    rename_i hsans hmono
    refine ⟨not_not.mp hbrand,not_not.mp hneutral,fun c hc => ?_,Bool.not_eq_false _ ▸ hsans,Bool.not_eq_false _ ▸ hmono⟩
    simpa using List.find?_eq_none.mp hcolors c hc
  · intro h
    have hcolors : (tokens.brand ++ tokens.neutral ++ [tokens.ok,tokens.warn,tokens.bad]).find? (fun c => !isHexColor c) = none := by
      rw [List.find?_eq_none]
      intro c hc
      simp [h.colors c hc]
    rw [if_neg (not_not.mpr h.brand),if_neg (not_not.mpr h.neutral),hcolors]
    dsimp only
    rw [if_neg (by simp [h.fontSans]),if_neg (by simp [h.fontMono])]

section Numbers
open Css

theorem digit_zero : isDigit (unit '0') = true := by decide

theorem digits_zeros {l : JsString} (hl : ∀ c ∈ l, isDigit c = true) (n : Nat) :
    ∀ c ∈ l ++ List.replicate n (unit '0'), isDigit c = true := by
  intro c hc
  rcases List.mem_append.mp hc with hc | hc
  · exact hl c hc
  · rw [List.eq_of_mem_replicate hc]
    exact digit_zero

theorem isExponent_exponentText (e : Int) : IsExponent (exponentText e) := by
  right
  cases hdigits : decimal e.natAbs with
  | nil => exact absurd hdigits (decimal_ne_nil _)
  | cons d ds =>
    refine ⟨if e < 0 then unit '-' else unit '+',d,ds,by rw [exponentText,hdigits],?_,?_⟩
    · split
      · exact .inr rfl
      · exact .inl rfl
    · rw [← hdigits]
      exact decimal_digits _

/-- The text of a number is a digit or a minus sign with digits, a fraction and an exponent. -/
theorem FiniteNumber.text_shape (x : FiniteNumber) : ∃ c ds fr ex, x.text = c :: (ds ++ (fr ++ ex)) ∧
    (isDigit c = true ∨ c = HYPHEN ∧ ds ≠ []) ∧ (∀ c ∈ ds, isDigit c = true) ∧ IsFraction fr ∧ IsExponent ex := by
  have hsigned : ∀ {u : JsString},
    (∃ d ds fr ex, u = d :: (ds ++ (fr ++ ex)) ∧ (∀ c ∈ d :: ds, isDigit c = true) ∧ IsFraction fr ∧ IsExponent ex) →
      ∃ c ds fr ex, (if x.negative then unit '-' :: u else u) = c :: (ds ++ (fr ++ ex)) ∧
        (isDigit c = true ∨ c = HYPHEN ∧ ds ≠ []) ∧ (∀ c ∈ ds, isDigit c = true) ∧ IsFraction fr ∧ IsExponent ex := by
    rintro u ⟨d,ds,fr,ex,rfl,hds,hfr,hex⟩
    cases x.negative with
    | true => exact ⟨_,d :: ds,fr,ex,rfl,.inr ⟨rfl,List.cons_ne_nil _ _⟩,hds,hfr,hex⟩
    | false => exact ⟨d,ds,fr,ex,rfl,.inl (hds d List.mem_cons_self),fun c hc => hds c (List.mem_cons_of_mem _ hc),hfr,hex⟩
  have hlength : 0 < x.digits.length := List.length_pos_of_ne_nil x.nonempty
  apply hsigned
  split
  · cases hdigits : x.digits with
    | nil => exact absurd hdigits x.nonempty
    | cons d ds =>
      have hzeros := digits_zeros x.isDigits (x.point - (x.digits.length : Int)).toNat
      rw [hdigits] at hzeros
      exact ⟨d,ds ++ List.replicate _ (unit '0'),[],[],by simp,hzeros,.inl rfl,.inl rfl⟩
  split
  · rename_i hpoint
    obtain ⟨d,ds,htake⟩ := List.exists_cons_of_length_pos (l := x.digits.take x.point.toNat) (by rw [List.length_take]; omega)
    obtain ⟨e,es,hdrop⟩ := List.exists_cons_of_length_pos (l := x.digits.drop x.point.toNat) (by rw [List.length_drop]; omega)
    refine ⟨d,ds,unit '.' :: e :: es,[],by rw [htake,hdrop]; simp,?_,.inr ⟨e,es,rfl,?_⟩,.inl rfl⟩
    · rw [← htake]
      exact fun c hc => x.isDigits c (List.mem_of_mem_take hc)
    · rw [← hdrop]
      exact fun c hc => x.isDigits c (List.mem_of_mem_drop hc)
  split
  · have hzeros : ∀ c ∈ List.replicate (-x.point).toNat (unit '0') ++ x.digits, isDigit c = true := by
      intro c hc
      rcases List.mem_append.mp hc with hc | hc
      · rw [List.eq_of_mem_replicate hc]
        exact digit_zero
      · exact x.isDigits c hc
    obtain ⟨e,es,hes⟩ := List.exists_cons_of_ne_nil
      (List.append_ne_nil_of_right_ne_nil (List.replicate (-x.point).toNat (unit '0')) x.nonempty)
    rw [hes] at hzeros
    refine ⟨unit '0',[],unit '.' :: e :: es,[],?_,by decide,.inr ⟨e,es,rfl,hzeros⟩,.inl rfl⟩
    have hpoint : js "0." = [unit '0',unit '.'] := by decide
    rw [List.append_assoc,hes,hpoint]
    simp
  split
  · cases hdigits : x.digits with
    | nil => exact absurd hdigits x.nonempty
    | cons d ds => exact ⟨d,ds,[],exponentText (x.point - 1),by simp,hdigits ▸ x.isDigits,.inl rfl,isExponent_exponentText _⟩
  · rename_i hone
    obtain ⟨d,ds,htake⟩ := List.exists_cons_of_length_pos (l := x.digits.take 1) (by rw [List.length_take]; omega)
    obtain ⟨e,es,hdrop⟩ := List.exists_cons_of_length_pos (l := x.digits.drop 1) (by rw [List.length_drop]; omega)
    refine ⟨d,ds,unit '.' :: e :: es,_,by rw [htake,hdrop]; simp,?_,.inr ⟨e,es,rfl,?_⟩,isExponent_exponentText (x.point - 1)⟩
    · rw [← htake]
      exact fun c hc => x.isDigits c (List.mem_of_mem_take hc)
    · rw [← hdrop]
      exact fun c hc => x.isDigits c (List.mem_of_mem_drop hc)

end Numbers

end JustMail.Themes
