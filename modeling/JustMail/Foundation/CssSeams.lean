import JustMail.Foundation.CssTokens

/-! Tokens before a semicolon. A text without backslashes is read before a semicolon as it is
read by itself, unless its last token takes the semicolon. -/
namespace JustMail.Foundation.Css
open Scanner

section Looking
variable (a r : JsString)

theorem validEscape_stop : validEscape (a ++ SEMICOLON :: r) = validEscape a := by
  rcases a with _ | ⟨c,_ | ⟨d,a⟩⟩
  · rfl
  · have hne : (some SEMICOLON != some LF) = true := by decide
    simp [validEscape,hne]
  · rfl

theorem startsIdent_stop : startsIdent (a ++ SEMICOLON :: r) = startsIdent a := by
  rcases a with _ | ⟨c,a⟩
  · rfl
  · rw [List.cons_append,startsIdent,startsIdent,← List.cons_append,validEscape_stop,validEscape_stop]
    cases a with
    | nil => rfl
    | cons d a => rfl

theorem startsDigits_stop : startsDigits (a ++ SEMICOLON :: r) = startsDigits a := by
  rcases a with _ | ⟨c,_ | ⟨d,a⟩⟩
  · rfl
  · have hdigit : isDigit SEMICOLON = false := by decide
    simp [startsDigits,hdigit]
  · rfl

theorem startsNumber_stop (c : CodeUnit) : startsNumber (c :: (a ++ SEMICOLON :: r)) = startsNumber (c :: a) := by
  rw [startsNumber,startsNumber,← List.cons_append,startsDigits_stop,startsDigits_stop]

theorem startsFraction_stop : startsFraction (a ++ SEMICOLON :: r) = startsFraction a := by
  rw [startsFraction,startsFraction,startsDigits_stop]
  cases a with
  | nil => rfl
  | cons c a => rfl

theorem startsExponent_stop : startsExponent (a ++ SEMICOLON :: r) = startsExponent a := by
  rcases a with _ | ⟨c,_ | ⟨d,_ | ⟨e,a⟩⟩⟩
  · rfl
  · have hdigit : isDigit SEMICOLON = false := by decide
    have hsign : (SEMICOLON == unit '+' || SEMICOLON == HYPHEN) = false := by decide
    simp [startsExponent,hdigit,hsign]
  · have hdigit : isDigit SEMICOLON = false := by decide
    simp [startsExponent,hdigit]
  · rfl

theorem starts_stop {c : CodeUnit} (hc : c ≠ SEMICOLON) : starts c (a ++ SEMICOLON :: r) = starts c a := by
  cases a with
  | nil =>
    rw [List.nil_append,starts,List.head?_cons,beq_eq_false_iff_ne.mpr (fun h => hc (Option.some.inj h).symm)]
    rfl
  | cons d a => rfl

theorem isPrefixOf_stop {literal : JsString} (h : SEMICOLON ∉ literal) :
    literal.isPrefixOf (a ++ SEMICOLON :: r) = literal.isPrefixOf a := by
  induction a generalizing literal with
  | nil =>
    cases literal with
    | nil => rfl
    | cons c literal =>
      rw [List.mem_cons,not_or] at h
      simp [List.isPrefixOf,Ne.symm h.1]
  | cons d a ih =>
    cases literal with
    | nil => rfl
    | cons c literal =>
      rw [List.mem_cons,not_or] at h
      simp only [List.cons_append,List.isPrefixOf,ih h.2]

theorem head_any_stop {p : CodeUnit → Bool} (hp : p SEMICOLON = false) :
    (a ++ SEMICOLON :: r).head?.any p = a.head?.any p := by
  cases a with
  | nil => simpa using hp
  | cons d a => rfl

end Looking

section Words
variable {a : JsString} {c : CodeUnit}

theorem length_of_starts (h : starts c a = true) : 1 ≤ a.length := by
  cases a with
  | nil => cases h
  | cons => simp

theorem semicolon_ne_backslash : SEMICOLON ≠ BACKSLASH := by decide

theorem within_identSequence (ha : BACKSLASH ∉ a) : (identSequence 0).Within SEMICOLON a :=
  within_spanEscaped ha semicolon_ne_backslash (.inl (by decide))

theorem within_fraction (a : JsString) : fraction.Within SEMICOLON a := by
  apply within_ask (startsFraction_stop a)
  · intro h
    have hlength : 1 ≤ a.length := by
      rw [startsFraction,Bool.and_eq_true] at h
      exact length_of_starts h.1
    exact (within_take hlength).bind ((within_spanWhile (by decide)).bind (within_pure _))
  · exact fun _ => within_pure _

theorem within_fractionAfter (c : CodeUnit) (a : JsString) : (fractionAfter c).Within SEMICOLON a := by
  unfold fractionAfter
  split
  · exact within_pure _
  · exact within_fraction a

theorem within_exponent (a : JsString) : exponent.Within SEMICOLON a := by
  apply within_ask (startsExponent_stop a)
  · intro h
    have hlength : 2 ≤ a.length := by
      rcases a with _ | ⟨c,_ | ⟨d,a⟩⟩
      · cases h
      · simp [startsExponent] at h
      · simp
    exact (within_take hlength).bind ((within_spanWhile (by decide)).bind (within_pure _))
  · exact fun _ => within_pure _

theorem within_numberUnit (ha : BACKSLASH ∉ a) : numberUnit.Within SEMICOLON a := by
  apply within_ask (startsIdent_stop a)
  · exact fun _ => (within_identSequence ha).bind (within_pure _)
  · intro _
    apply within_ask fun r => starts_stop a r (by decide)
    · exact fun h => (within_take (length_of_starts h)).bind (within_pure _)
    · exact fun _ => within_pure _

theorem within_numberAfter (ha : BACKSLASH ∉ a) (c : CodeUnit) : (numberAfter c).Within SEMICOLON a := by
  apply (within_spanWhile (by decide)).bind
  apply (within_fractionAfter c _).bind
  apply (within_exponent _).bind
  apply within_numberUnit
  intro hmem
  exact ha (mem_of_mem_rest (mem_of_mem_rest (mem_of_mem_rest hmem)))

theorem settled_stringAfter (ha : BACKSLASH ∉ a) {q : CodeUnit} (hq : q ≠ SEMICOLON) : (stringAfter q).Settled SEMICOLON a := by
  apply spanEscaped_bind_settled ha semicolon_ne_backslash
  · intro hrest
    left
    apply within_ask fun r => starts_stop _ r hq
    · exact fun h => (within_take (length_of_starts h)).bind (within_pure _)
    · intro _
      apply within_ask
      · intro r
        rw [List.isEmpty_eq_false_iff.mpr hrest,List.isEmpty_eq_false_iff.mpr (by simp)]
      · exact fun _ => within_pure _
      · exact fun _ => within_pure _
  · have hlf : (SEMICOLON != LF) = true := by decide
    rw [hlf,Bool.and_true,bne_iff_ne]
    exact hq.symm

theorem settled_badRemnants (ha : BACKSLASH ∉ a) : badRemnants.Settled SEMICOLON a := by
  apply spanEscaped_bind_settled ha semicolon_ne_backslash
  · intro _
    left
    apply within_ask fun r => starts_stop _ r (by decide)
    · exact fun h => (within_take (length_of_starts h)).bind (within_pure _)
    · exact fun _ => within_pure _
  · decide

theorem settled_urlEnd (ha : BACKSLASH ∉ a) : urlEnd.Settled SEMICOLON a := by
  apply settled_ask fun r => starts_stop a r (by decide)
  · exact fun h => .inl ((within_take (length_of_starts h)).bind (within_pure _))
  · intro _
    cases a with
    | nil =>
      right
      apply beyond_look
      intro ended
      have hbeyond : badRemnants.Beyond SEMICOLON [] :=
        (beyond_spanEscaped ha semicolon_ne_backslash (by decide) rfl).bind
      exact hbeyond.bind
    | cons c a =>
      have hempty : (look List.isEmpty).Within SEMICOLON (c :: a) := within_look fun _ => rfl
      apply hempty.bind_settled
      rcases settled_badRemnants ha with hwithin | hbeyond
      · exact .inl (hwithin.bind (within_pure _))
      · exact .inr hbeyond.bind

theorem settled_urlBody (ha : BACKSLASH ∉ a) : urlBody.Settled SEMICOLON a := by
  have hblanks : (spanWhile isBlank).Within SEMICOLON a := within_spanWhile (by decide)
  apply hblanks.bind_settled
  have ha' : BACKSLASH ∉ ((spanWhile isBlank).run a).rest := fun hmem => ha (mem_of_mem_rest hmem)
  apply spanEscaped_bind_settled ha' semicolon_ne_backslash
  · intro _
    have hrest : BACKSLASH ∉ List.dropWhile isUrlUnit ((spanWhile isBlank).run a).rest :=
      fun hmem => ha' ((List.dropWhile_suffix _).subset hmem)
    apply settled_ask fun r => head_any_stop _ r (by decide)
    · intro _
      apply (within_spanWhile (by decide)).bind_settled
      exact settled_urlEnd fun hmem => hrest (mem_of_mem_rest hmem)
    · exact fun _ => settled_urlEnd hrest
  · decide

theorem settled_urlAfter (ha : BACKSLASH ∉ a) : urlAfter.Settled SEMICOLON a := by
  have hspan : ∀ r, (a ++ SEMICOLON :: r).takeWhile isBlank = a.takeWhile isBlank ∧
      (a ++ SEMICOLON :: r).dropWhile isBlank = a.dropWhile isBlank ++ SEMICOLON :: r := by
    intro r
    have hrun := within_spanWhile (z := SEMICOLON) (p := isBlank) (a := a) (by decide) r
    exact ⟨congrArg Scanned.text hrun,congrArg Scanned.rest hrun⟩
  apply settled_ask
  · intro r
    rw [(hspan r).2,head_any_stop _ r (by decide)]
  · intro _
    left
    have hcount : (look fun s => (s.takeWhile isBlank).length).Within SEMICOLON a :=
      within_look fun r => congrArg List.length (hspan r).1
    apply hcount.bind
    refine Within.bind (within_take ?_) (within_pure _)
    have hle := (List.takeWhile_prefix (l := a) isBlank).length_le
    rw [run_look]
    dsimp only
    omega
  · exact fun _ => settled_urlBody ha

theorem settled_identAfter (ha : BACKSLASH ∉ a) (hc : c ≠ BACKSLASH) : (identAfter c).Settled SEMICOLON a := by
  have hskip : (look fun s => if c = BACKSLASH then escapeLength s else 0).Within SEMICOLON a :=
    within_look fun r => by rw [if_neg hc,if_neg hc]
  apply hskip.bind_settled
  rw [run_look,if_neg hc]
  dsimp only
  apply (within_identSequence ha).bind_settled
  have hrest : BACKSLASH ∉ ((identSequence 0).run a).rest := fun hmem => ha (mem_of_mem_rest hmem)
  apply settled_ask fun r => starts_stop _ r (by decide)
  · intro h
    apply (within_take (length_of_starts h)).bind_settled
    split
    · exact settled_urlAfter fun hmem => hrest (mem_of_mem_rest hmem)
    · exact .inl (within_pure _)
  · exact fun _ => .inl (within_pure _)

theorem within_hashAfter (ha : BACKSLASH ∉ a) : hashAfter.Within SEMICOLON a := by
  apply within_ask
  · intro r
    rw [head_any_stop a r (by decide),validEscape_stop]
  · exact fun _ => (within_identSequence ha).bind (within_pure _)
  · exact fun _ => within_pure _

theorem within_atAfter (ha : BACKSLASH ∉ a) : atAfter.Within SEMICOLON a := by
  apply within_ask (startsIdent_stop a)
  · exact fun _ => (within_identSequence ha).bind (within_pure _)
  · exact fun _ => within_pure _

theorem within_take_literal {literal : JsString} {n : Nat} {w : Word} (hn : literal.length = n) (h : literal.isPrefixOf a = true) :
    (do let _ ← take n; pure w : Scanner Word).Within SEMICOLON a :=
  (within_take (hn ▸ (List.isPrefixOf_iff_prefix.mp h).length_le)).bind (within_pure _)

theorem settled_wordAfter (ha : BACKSLASH ∉ a) (hc : c ≠ BACKSLASH) : (wordAfter c).Settled SEMICOLON a := by
  unfold wordAfter
  by_cases hquote : c = QUOTE ∨ c = APOSTROPHE
  · rw [if_pos hquote]
    apply settled_stringAfter ha
    rcases hquote with rfl | rfl <;> decide
  rw [if_neg hquote]
  by_cases hhash : c = unit '#'
  · rw [if_pos hhash]
    exact .inl (within_hashAfter ha)
  rw [if_neg hhash]
  by_cases hat : c = unit '@'
  · rw [if_pos hat]
    exact .inl (within_atAfter ha)
  rw [if_neg hat]
  apply settled_ask
  · intro r
    rw [isPrefixOf_stop a r (by decide)]
  · intro h
    rw [Bool.and_eq_true] at h
    exact .inl (within_take_literal (by decide) h.2)
  intro _
  apply settled_ask fun r => startsNumber_stop a r c
  · exact fun _ => .inl (within_numberAfter ha c)
  intro _
  apply settled_ask
  · intro r
    rw [isPrefixOf_stop a r (by decide)]
  · intro h
    rw [Bool.and_eq_true] at h
    exact .inl (within_take_literal (by decide) h.2)
  intro _
  apply settled_ask
  · exact startsIdent_stop (c :: a)
  · exact fun _ => settled_identAfter ha hc
  · exact fun _ => .inl (within_pure _)

/-- What a unit begins is read within the text before a semicolon, or takes the semicolon. -/
theorem settled_kindAfter (ha : BACKSLASH ∉ a) (hc : c ≠ BACKSLASH) : (kindAfter c).Settled SEMICOLON a := by
  unfold kindAfter
  cases punctuation c with
  | some kind => exact .inl (within_pure _)
  | none =>
    dsimp only
    split
    · exact .inl ((within_spanWhile (by decide)).bind (within_pure _))
    · rcases settled_wordAfter ha hc with hwithin | hbeyond
      · exact .inl (hwithin.bind (within_pure _))
      · exact .inr hbeyond.bind

end Words

section Lexing
variable {a s : JsString} {t : Token} {ts us : List Token}

def texts (ts : List Token) : JsString := ts.flatMap Token.text

theorem texts_cons (t : Token) (ts : List Token) : texts (t :: ts) = t.text ++ texts ts := List.flatMap_cons

theorem texts_append (ts us : List Token) : texts (ts ++ us) = texts ts ++ texts us := List.flatMap_append

def tokenAt (c : CodeUnit) (s : JsString) : Token := ⟨((kindAfter c).run s).value,c :: ((kindAfter c).run s).text⟩

theorem tokens_cons {c : CodeUnit} (hc : c ≠ SLASH) (s : JsString) :
    tokens (c :: s) = tokenAt c s :: tokens ((kindAfter c).run s).rest := by
  rw [tokens,lexer.all_cons]
  simp only [lexer,if_neg (fun h : c = SLASH ∧ s.head? = some STAR => hc h.1)]
  rfl

theorem mem_tokens (h : t ∈ tokens s) : ∃ c s', t = tokenAt c s' := by
  induction hn : s.length using Nat.strongRecOn generalizing s with
  | ind n ih =>
    cases s with
    | nil => cases h
    | cons c s =>
      rw [tokens,lexer.all_cons,List.mem_append,Option.mem_toList] at h
      rw [List.length_cons] at hn
      have hshrinks := lexer.shrinks c s
      rcases h with h | h
      · simp only [lexer] at h
        split at h
        · cases h
        · exact ⟨c,s,(Option.some.inj h).symm⟩
      · exact ih _ (by omega) h rfl

/-- The tokens of a text without comments keep all of it. -/
theorem texts_tokens (hs : SLASH ∉ s) : texts (tokens s) = s := by
  induction hn : s.length using Nat.strongRecOn generalizing s with
  | ind n ih =>
    cases s with
    | nil => rfl
    | cons c s =>
      rw [List.mem_cons,not_or] at hs
      rw [List.length_cons] at hn
      have hrest := length_rest_le s (kindAfter c)
      rw [tokens_cons (Ne.symm hs.1),texts_cons,ih _ (by omega) (fun hmem => hs.2 (mem_of_mem_rest hmem)) rfl]
      exact congrArg (c :: ·) ((kindAfter c).lossless s)

/-- A text is divided from what follows it at a semicolon. -/
def Splits (a : JsString) : Prop := ∀ r, tokens (a ++ SEMICOLON :: r) = tokens a ++ tokens (SEMICOLON :: r)

/-- A text without backslashes and comments is divided from the rest before a semicolon, or no
token ends there. -/
theorem splits_or_crossed (hbackslash : BACKSLASH ∉ a) (hslash : SLASH ∉ a) :
    Splits a ∨ ∀ r ts us, tokens (a ++ SEMICOLON :: r) = ts ++ us → texts ts ≠ a := by
  induction hn : a.length using Nat.strongRecOn generalizing a with
  | ind n ih =>
    cases a with
    | nil => exact .inl fun _ => rfl
    | cons c a =>
      rw [List.mem_cons,not_or] at hbackslash hslash
      rw [List.length_cons] at hn
      have hrest := length_rest_le a (kindAfter c)
      rcases settled_kindAfter hbackslash.2 (Ne.symm hbackslash.1) with hwithin | hbeyond
      · have hcons : ∀ r, tokens (c :: a ++ SEMICOLON :: r) =
            tokenAt c a :: tokens (((kindAfter c).run a).rest ++ SEMICOLON :: r) := by
          intro r
          rw [List.cons_append,tokens_cons (Ne.symm hslash.1),tokenAt,hwithin r]
          rfl
        have hsplit : Splits ((kindAfter c).run a).rest ∨ _ := ih _ (by omega) (fun hmem => hbackslash.2 (mem_of_mem_rest hmem))
          (fun hmem => hslash.2 (mem_of_mem_rest hmem)) rfl
        refine hsplit.imp (fun hsplit r => ?_) fun hcrossed r ts us htokens htexts => ?_
        · rw [hcons,hsplit,tokens_cons (Ne.symm hslash.1)]
          rfl
        · rw [hcons] at htokens
          cases ts with
          | nil => cases htexts
          | cons t ts =>
            obtain ⟨rfl,hbehind⟩ := List.cons.inj htokens
            rw [texts_cons,← List.cons_append.symm.trans (congrArg (c :: ·) ((kindAfter c).lossless a)),tokenAt] at htexts
            exact hcrossed r ts us hbehind (List.append_cancel_left htexts)
      · right
        intro r ts us htokens htexts
        rw [List.cons_append,tokens_cons (Ne.symm hslash.1)] at htokens
        cases ts with
        | nil => cases htexts
        | cons t ts =>
          obtain ⟨rfl,-⟩ := List.cons.inj htokens
          have hlength := congrArg List.length htexts
          have hlong := hbeyond r
          rw [texts_cons,tokenAt,List.length_append,List.length_cons,List.length_cons] at hlength
          omega

end Lexing

section Forms
variable {c : CodeUnit} {s : JsString} {t : Token}

theorem run_kindAfter_punctuation {kind : TokenKind} (h : punctuation c = some kind) (s : JsString) :
    (kindAfter c).run s = ⟨kind,[],s⟩ := by
  simp only [kindAfter,h]
  rfl

theorem run_kindAfter_blank (hpunctuation : punctuation c = none) (hblank : isBlank c = true) (s : JsString) :
    (kindAfter c).run s = ⟨.blank,s.takeWhile isBlank,s.dropWhile isBlank⟩ := by
  simp only [kindAfter,hpunctuation,hblank,if_true,run_bind,run_spanWhile,run_pure,List.append_nil]

theorem run_kindAfter_word (hpunctuation : punctuation c = none) (hblank : isBlank c = false) (s : JsString) :
    (kindAfter c).run s = ⟨.word ((wordAfter c).run s).value,((wordAfter c).run s).text,((wordAfter c).run s).rest⟩ := by
  simp only [kindAfter,hpunctuation,hblank,Bool.false_eq_true,if_false,run_bind,run_pure,List.append_nil]

theorem tokens_punctuation {kind : TokenKind} (h : punctuation c = some kind) (s : JsString) :
    tokens (c :: s) = ⟨kind,[c]⟩ :: tokens s := by
  have hslash : punctuation SLASH = none := by decide
  have hc : c ≠ SLASH := by
    rintro rfl
    rw [hslash] at h
    cases h
  rw [tokens_cons hc,tokenAt,run_kindAfter_punctuation h]

theorem punctuation_of_blank (h : isBlank c = true) : punctuation c = none := by
  have hcases : c = unit ' ' ∨ c = 9 ∨ c = LF := by simpa [isBlank,or_assoc] using h
  rcases hcases with rfl | rfl | rfl <;> decide

theorem tokens_blank (h : isBlank c = true) (s : JsString) :
    tokens (c :: s) = ⟨.blank,c :: s.takeWhile isBlank⟩ :: tokens (s.dropWhile isBlank) := by
  have hc : c ≠ SLASH := by
    rintro rfl
    exact absurd h (by decide)
  rw [tokens_cons hc,tokenAt,run_kindAfter_blank (punctuation_of_blank h) h]

theorem tokenAt_cases (c : CodeUnit) (s : JsString) :
    (punctuation c = some (tokenAt c s).kind ∧ (tokenAt c s).text = [c]) ∨
    ((tokenAt c s).kind = .blank ∧ ∀ d ∈ (tokenAt c s).text, isBlank d = true) ∨ ∃ w, (tokenAt c s).kind = .word w := by
  cases hpunctuation : punctuation c with
  | some kind =>
    left
    rw [tokenAt,run_kindAfter_punctuation hpunctuation]
    exact ⟨rfl,rfl⟩
  | none =>
    right
    cases hblank : isBlank c with
    | true =>
      left
      rw [tokenAt,run_kindAfter_blank hpunctuation hblank]
      refine ⟨rfl,fun d hd => ?_⟩
      rcases List.mem_cons.mp hd with rfl | hd
      · exact hblank
      · exact List.mem_takeWhile_imp hd
    | false =>
      right
      rw [tokenAt,run_kindAfter_word hpunctuation hblank]
      exact ⟨_,rfl⟩

theorem punctuation_semicolon (h : punctuation c = some .semicolon) : c = SEMICOLON := by
  unfold punctuation at h
  split at h
  · cases h
  split at h
  · assumption
  repeat' split at h
  all_goals cases h

theorem punctuation_closing_curly (h : punctuation c = some (.closing .curly)) : c = CLOSE_CURLY := by
  unfold punctuation at h
  repeat' split at h
  all_goals first | assumption | cases h

theorem mark_of_kind (ht : t ∈ tokens s) (hblank : t.kind ≠ .blank) (hword : ∀ w, t.kind ≠ .word w) :
    ∃ c, punctuation c = some t.kind ∧ t.text = [c] := by
  obtain ⟨c,s,rfl⟩ := mem_tokens ht
  rcases tokenAt_cases c s with h | ⟨hkind,-⟩ | ⟨w,hkind⟩
  · exact ⟨c,h⟩
  · exact absurd hkind hblank
  · exact absurd hkind (hword w)

theorem text_of_semicolon (ht : t ∈ tokens s) (hkind : t.kind = .semicolon) : t.text = [SEMICOLON] := by
  obtain ⟨c,hc,htext⟩ := mark_of_kind ht (by simp [hkind]) (by simp [hkind])
  rw [htext,punctuation_semicolon (hc.trans (congrArg some hkind))]

theorem text_of_closing_curly (ht : t ∈ tokens s) (hkind : t.kind = .closing .curly) : t.text = [CLOSE_CURLY] := by
  obtain ⟨c,hc,htext⟩ := mark_of_kind ht (by simp [hkind]) (by simp [hkind])
  rw [htext,punctuation_closing_curly (hc.trans (congrArg some hkind))]

theorem text_of_blank (ht : t ∈ tokens s) (hkind : t.kind = .blank) : ∀ d ∈ t.text, isBlank d = true := by
  obtain ⟨c,s,rfl⟩ := mem_tokens ht
  rcases tokenAt_cases c s with ⟨hpunctuation,-⟩ | ⟨-,hblank⟩ | ⟨w,hw⟩
  · rw [hkind] at hpunctuation
    unfold punctuation at hpunctuation
    repeat' split at hpunctuation
    all_goals cases hpunctuation
  · exact hblank
  · rw [hkind] at hw
    cases hw

end Forms

section Names
variable {c d z : CodeUnit} {m r : JsString}

theorem ne_of_isIdent (h : isIdent c = true) (hd : isIdent d = false) : c ≠ d := by
  rintro rfl
  rw [h] at hd
  cases hd

theorem punctuation_isIdent (h : isIdent c = true) : punctuation c = none := by
  simp only [punctuation,if_neg (ne_of_isIdent h (d := COLON) (by decide)),if_neg (ne_of_isIdent h (d := SEMICOLON) (by decide)),
    if_neg (ne_of_isIdent h (d := unit ',') (by decide)),if_neg (ne_of_isIdent h (d := OPEN) (by decide)),
    if_neg (ne_of_isIdent h (d := CLOSE) (by decide)),if_neg (ne_of_isIdent h (d := unit '[') (by decide)),
    if_neg (ne_of_isIdent h (d := unit ']') (by decide)),if_neg (ne_of_isIdent h (d := OPEN_CURLY) (by decide)),
    if_neg (ne_of_isIdent h (d := CLOSE_CURLY) (by decide))]

theorem isBlank_isIdent (h : isIdent c = true) : isBlank c = false := by
  have hspace : c ≠ unit ' ' := ne_of_isIdent h (by decide)
  have htab : c ≠ 9 := ne_of_isIdent h (by decide)
  have hlf : c ≠ LF := ne_of_isIdent h (by decide)
  simp [isBlank,hspace,htab,hlf]

theorem isDigit_isIdentStart (h : isIdentStart c = true) : isDigit c = false := by
  rw [Bool.eq_false_iff]
  intro hdigit
  exact absurd h (of_isDigit (p := fun c => ¬ isIdentStart c = true) (by decide) hdigit)

/-- What a name begins with: a letter, a unit beyond ASCII, a low line, or two hyphens and more. -/
def BeginsName (c : CodeUnit) (m : JsString) : Prop := isIdentStart c = true ∨ (c = HYPHEN ∧ ∃ d m', m = HYPHEN :: d :: m')

theorem run_wordAfter_name (hbegins : BeginsName c m) (hm : ∀ d ∈ m, isIdent d = true) :
    (wordAfter c).run (m ++ r) = (identAfter c).run (m ++ r) := by
  have hc : isIdent c = true := by
    rcases hbegins with h | ⟨rfl,-⟩
    · rw [isIdent,h]
      rfl
    · decide
  have hquote : ¬ (c = QUOTE ∨ c = APOSTROPHE) := by
    rintro (h | h)
    · exact ne_of_isIdent hc (by decide) h
    · exact ne_of_isIdent hc (by decide) h
  have hless : (c == unit '<' && (js "!--").isPrefixOf (m ++ r)) = false := by
    rw [beq_eq_false_iff_ne.mpr (ne_of_isIdent hc (by decide)),Bool.false_and]
  have hplain : startsNumber (c :: (m ++ r)) = false ∧ (c == HYPHEN && (js "->").isPrefixOf (m ++ r)) = false ∧
      startsIdent (c :: (m ++ r)) = true := by
    rcases hbegins with h | ⟨rfl,d,m,rfl⟩
    · have hne : ∀ {d : CodeUnit}, isIdentStart d = false → c ≠ d := by
        rintro d hd rfl
        rw [h] at hd
        cases hd
      have hhyphen : c ≠ HYPHEN := hne (by decide)
      refine ⟨?_,by rw [beq_eq_false_iff_ne.mpr hhyphen,Bool.false_and],by rw [startsIdent,if_neg hhyphen,h,Bool.true_or]⟩
      rw [startsNumber,if_neg (not_or.mpr ⟨hne (by decide),hhyphen⟩),startsDigits,isDigit_isIdentStart h,
        beq_eq_false_iff_ne.mpr (hne (d := DOT) (by decide)),Bool.false_and,Bool.or_false]
    · have hd : d ≠ unit '>' := ne_of_isIdent (hm d (by simp)) (by decide)
      refine ⟨rfl,?_,rfl⟩
      have hliteral : js "->" = [HYPHEN,unit '>'] := by decide
      simp [hliteral,List.isPrefixOf,Ne.symm hd]
  unfold wordAfter
  rw [if_neg hquote,if_neg (ne_of_isIdent hc (by decide)),if_neg (ne_of_isIdent hc (by decide)),run_ask_no hless,
    run_ask_no (p := fun s => startsNumber (c :: s)) hplain.1,run_ask_no hplain.2.1,
    run_ask_yes (p := fun s => startsIdent (c :: s)) hplain.2.2]

/-- A sequence of units of a name ends at the first other unit. -/
theorem run_identSequence (hm : ∀ d ∈ m, isIdent d = true) (hz : isIdent z = false) (hbackslash : z ≠ BACKSLASH) :
    (identSequence 0).run (m ++ z :: r) = ⟨m,m,z :: r⟩ := by
  have hm' : BACKSLASH ∉ m := fun hmem => absurd (hm _ hmem) (by decide)
  have hwithin : (identSequence 0).Within z m := within_spanEscaped hm' hbackslash (.inl hz)
  rw [hwithin r,identSequence,run_spanEscaped hm',List.takeWhile_eq_self_iff.mpr hm,List.dropWhile_eq_nil_iff.mpr hm]
  rfl

theorem tokens_name (hbegins : BeginsName c m) (hm : ∀ d ∈ m, isIdent d = true) (hz : isIdent z = false)
    (hbackslash : z ≠ BACKSLASH) (hopen : z ≠ OPEN) :
    tokens (c :: (m ++ z :: r)) = ⟨.word .ident,c :: m⟩ :: tokens (z :: r) := by
  have hc : isIdent c = true := by
    rcases hbegins with h | ⟨rfl,-⟩
    · rw [isIdent,h]
      rfl
    · decide
  have hstart : starts OPEN (z :: r) = false := by
    rw [starts,List.head?_cons,beq_eq_false_iff_ne]
    exact fun h => hopen (Option.some.inj h)
  have hrun : (identAfter c).run (m ++ z :: r) = ⟨.ident,m,z :: r⟩ := by
    rw [identAfter,run_bind,run_look,if_neg (ne_of_isIdent hc (by decide))]
    dsimp only
    rw [run_bind,run_identSequence hm hz hbackslash]
    dsimp only
    rw [run_ask_no hstart,run_pure,List.append_nil]
    rfl
  rw [tokens_cons (ne_of_isIdent hc (by decide)),tokenAt,run_kindAfter_word (punctuation_isIdent hc) (isBlank_isIdent hc),
    run_wordAfter_name hbegins hm,hrun]

end Names

end JustMail.Foundation.Css
