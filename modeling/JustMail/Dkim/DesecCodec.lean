import JustMail.Dkim.DesecSync
import JustMail.Foundation.Decimal
import JustMail.Foundation.Sequences

/-! The codec between record contents and the provider's presentation forms (`desec.ts`). -/
namespace JustMail.Dkim
open Foundation

section Texts
variable {c s : JsString}

private theorem joinStringsAux_append (hc : QUOTE ∉ c) (s : JsString) :
    joinStringsAux [] (c ++ s) = c ++ joinStringsAux [] s := by
  induction c with
  | nil => rfl
  | cons a c ih =>
    have ha : a ≠ QUOTE := fun h => hc (by simp [h])
    rw [List.cons_append,joinStringsAux,if_neg ha,ih fun h => hc (by simp [h])]
    rfl

/-- Text without quotes has no separators to delete. -/
theorem joinStrings_of_no_quote (hc : QUOTE ∉ c) : joinStrings c = c := by
  have h := joinStringsAux_append hc []
  rw [List.append_nil] at h
  rw [joinStrings,h]
  exact List.append_nil c

/-- A quote that no white space follows stays. -/
private theorem joinStringsAux_quote (hs : ∀ a ∈ s.head?, isSpace a = false) (hq : ∀ a ∈ s.head?, a ≠ QUOTE) :
    joinStringsAux [] (QUOTE :: s) = QUOTE :: joinStringsAux [] s := by
  rw [joinStringsAux,if_pos rfl]
  cases s with
  | nil => rfl
  | cons a s =>
    have ha : a ≠ QUOTE := hq a rfl
    have hspace : ¬isSpace a = true := by simp [hs a rfl]
    have hpending : joinStringsAux [QUOTE] (a :: s) = [QUOTE] ++ a :: joinStringsAux [] s := by
      rw [joinStringsAux,if_neg hspace,if_neg ha]
      simp
    rw [hpending,joinStringsAux,if_neg ha]
    rfl

private theorem joinStringsAux_separator (s : JsString) :
    joinStringsAux [] (QUOTE :: (js " " ++ QUOTE :: s)) = joinStringsAux [] s := by
  change joinStringsAux [] (QUOTE :: unit ' ' :: QUOTE :: s) = _
  rw [joinStringsAux,if_pos rfl,joinStringsAux,if_pos (by decide),List.singleton_append,joinStringsAux,
    if_neg (by decide),if_pos rfl,if_pos (by decide)]
  · simp
  · simp

theorem unquote_quoted (c : JsString) : unquote (QUOTE :: c ++ [QUOTE]) = c := by
  simp [unquote,dropHeadUnit,dropLastUnit]

theorem unquote_of_no_quote (hc : QUOTE ∉ c) : unquote c = c := by
  have hhead : c.head? ≠ some QUOTE := fun h => hc (List.mem_of_head? h)
  have hlast : c.getLast? ≠ some QUOTE := fun h => hc (List.mem_of_getLast? h)
  simp [unquote,dropHeadUnit,dropLastUnit,hhead,hlast]

/-- The presentation form of a sequence of character-strings. -/
def presented (strings : List JsString) : JsString := (js " ").intercalate (strings.map fun c => QUOTE :: c ++ [QUOTE])

/-- What stands in quotes: every second piece of the text split at its quotes. -/
def quotedChunks (record : JsString) : List JsString := pieces (record.splitOn QUOTE)
where
  pieces : List JsString → List JsString
    | _ :: q :: rest => q :: pieces rest
    | _ => []

theorem presented_cons (c : JsString) (cs : List JsString) :
    presented (c :: cs) = QUOTE :: (c ++ cs.flatMap (fun d => QUOTE :: (js " " ++ QUOTE :: d)) ++ [QUOTE]) := by
  induction cs generalizing c with
  | nil => simp [presented]
  | cons d cs ih =>
    have hjoin : presented (c :: d :: cs) = QUOTE :: c ++ [QUOTE] ++ js " " ++ presented (d :: cs) := by
      rw [presented,List.map_cons,List.intercalate_cons_of_ne_nil (by simp)]
      rfl
    rw [hjoin,ih,List.flatMap_cons]
    simp only [List.append_assoc,List.cons_append,List.nil_append]

/-- Behind the opening quote every separator goes, and the closing quote stays. -/
private theorem joinStringsAux_strings {cs : List JsString} (hcs : ∀ d ∈ cs, QUOTE ∉ d) :
    joinStringsAux [] (cs.flatMap (fun d => QUOTE :: (js " " ++ QUOTE :: d)) ++ [QUOTE]) = cs.flatten ++ [QUOTE] := by
  induction cs with
  | nil => rfl
  | cons d cs ih =>
    have hd : QUOTE ∉ d := hcs d List.mem_cons_self
    rw [List.flatMap_cons,List.flatten_cons,List.append_assoc d,← ih fun e he => hcs e (List.mem_cons_of_mem _ he)]
    rw [List.append_assoc,List.cons_append,List.append_assoc,List.cons_append,joinStringsAux_separator]
    exact joinStringsAux_append hd _

theorem joinStrings_presented {cs : List JsString} (hc : QUOTE ∉ c) (hspace : ∀ a ∈ c.head?, isSpace a = false)
    (hcs : ∀ d ∈ cs, QUOTE ∉ d) (hempty : c = [] → cs = []) :
    joinStrings (presented (c :: cs)) = QUOTE :: (c ++ cs.flatten) ++ [QUOTE] := by
  cases c with
  | nil =>
    rw [hempty rfl]
    rfl
  | cons a c =>
    have ha : a ≠ QUOTE := fun h => hc (by simp [h])
    rw [joinStrings,presented_cons,List.append_assoc,joinStringsAux_quote (by simpa using hspace) (by simpa using ha),
      joinStringsAux_append hc,joinStringsAux_strings hcs]
    simp

private theorem pieces_modifyHead (f : JsString → JsString) (ps : List JsString) :
    quotedChunks.pieces (ps.modifyHead f) = quotedChunks.pieces ps := by
  cases ps with
  | nil => rfl
  | cons p ps => cases ps <;> rfl

theorem quotedChunks_presented {strings : List JsString} (h : ∀ c ∈ strings, QUOTE ∉ c) :
    quotedChunks (presented strings) = strings := by
  induction strings with
  | nil => rfl
  | cons c cs ih =>
    have hc : QUOTE ∉ c := h c List.mem_cons_self
    cases cs with
    | nil =>
      have hsplit : (presented [c]).splitOn QUOTE = [[],c,[]] := by
        rw [presented_cons,List.splitOn_cons_eq_if_modifyHead,if_pos (by simp),List.flatMap_nil,List.append_nil,
          List.splitOn_append_cons_self_of_not_mem hc,List.splitOn_nil]
      rw [quotedChunks,hsplit]
      rfl
    | cons d cs =>
      have hsplit : (presented (c :: d :: cs)).splitOn QUOTE =
          [] :: c :: ((presented (d :: cs)).splitOn QUOTE).modifyHead (unit ' ' :: ·) := by
        rw [presented_cons c,List.splitOn_cons_eq_if_modifyHead,if_pos (by simp),List.flatMap_cons,List.append_assoc,
          List.append_assoc,List.cons_append,List.splitOn_append_cons_self_of_not_mem hc,presented_cons d]
        congr 2
        simp only [List.append_assoc,List.cons_append]
        exact (List.splitOn_cons_eq_if_modifyHead _ _).trans (if_neg (by decide))
      rw [quotedChunks,hsplit]
      change c :: quotedChunks.pieces _ = _
      rw [pieces_modifyHead]
      exact congrArg (c :: ·) (ih fun e he => h e (List.mem_cons_of_mem _ he))

end Texts

section Codec
variable {c host : JsString}

theorem characterStrings_flatten (s : JsString) : (characterStrings s).flatten = s := by
  rw [characterStrings]
  split
  · rename_i hs
    rw [hs]
    rfl
  · exact toChunks_flatten 255 s

theorem characterStrings_length (s : JsString) : ∀ c ∈ characterStrings s, c.length ≤ 255 := by
  intro c hc
  rw [characterStrings] at hc
  split at hc
  · rw [List.mem_singleton.mp hc]
    exact Nat.zero_le _
  · exact (toChunks_bounded (by decide) s c hc).2

/-- The first string is empty only where it is the only one. -/
theorem characterStrings_cons (s : JsString) : ∃ c cs, characterStrings s = c :: cs ∧ (c = [] → cs = []) := by
  rw [characterStrings]
  split
  · exact ⟨[],[],rfl,fun _ => rfl⟩
  · rename_i hs
    obtain ⟨c,cs,hcs⟩ := List.exists_cons_of_ne_nil (toChunks_ne_nil (k := 255) hs)
    refine ⟨c,cs,hcs,fun hc => ?_⟩
    exact absurd hc (toChunks_bounded (by decide) s c (hcs ▸ List.mem_cons_self)).1

theorem encodeContent_txt (hc : QUOTE ∉ c) (priority : Option Nat) :
    encodeContent TXT c priority = presented (characterStrings c) := by
  unfold encodeContent
  rw [if_pos rfl,joinStrings_of_no_quote hc,unquote_of_no_quote hc]
  rfl

/-- What both sides read out of the encoded value is the content. -/
theorem unquote_joinStrings_presented (hc : QUOTE ∉ c) (hspace : ∀ a ∈ c.head?, isSpace a = false) :
    unquote (joinStrings (presented (characterStrings c))) = c := by
  obtain ⟨first,rest,hstrings,hempty⟩ := characterStrings_cons c
  have hflat : first ++ rest.flatten = c := by
    rw [← List.flatten_cons,← hstrings,characterStrings_flatten]
  have hquote : ∀ d ∈ first :: rest, QUOTE ∉ d := by
    intro d hd hmem
    apply hc
    rw [← characterStrings_flatten c,hstrings]
    exact List.mem_flatten.mpr ⟨d,hd,hmem⟩
  have hfirst : ∀ a ∈ first.head?, isSpace a = false := by
    intro a ha
    apply hspace
    rw [← hflat,List.head?_append,Option.mem_def.mp ha]
    rfl
  rw [hstrings,joinStrings_presented (hquote first List.mem_cons_self) hfirst
    (fun d hd => hquote d (List.mem_cons_of_mem _ hd)) hempty,unquote_quoted,hflat]

theorem splitSpaces_word (hc : ∀ a ∈ c, isSpace a = false) : splitSpaces c = [c] := by
  induction c with
  | nil => rfl
  | cons a c ih =>
    rw [splitSpaces,if_neg (by simp [hc a List.mem_cons_self]),ih fun b hb => hc b (List.mem_cons_of_mem _ hb)]

/-- A word, one blank and a word. -/
theorem splitSpaces_pair (hc : ∀ a ∈ c, isSpace a = false) (hhost : ∀ a ∈ host, isSpace a = false) :
    splitSpaces (c ++ js " " ++ host) = [c,host] := by
  induction c with
  | nil =>
    have hhead : ¬host.head?.any isSpace = true := by
      cases host with
      | nil => simp
      | cons a host => simp [hhost a List.mem_cons_self]
    change splitSpaces (unit ' ' :: host) = _
    rw [splitSpaces,if_pos (by decide),if_neg hhead,splitSpaces_word hhost]
  | cons a c ih =>
    rw [List.cons_append,List.cons_append,splitSpaces,if_neg (by simp [hc a List.mem_cons_self]),
      ih fun b hb => hc b (List.mem_cons_of_mem _ hb)]

theorem not_isSpace_of_isDigit {a : CodeUnit} (h : isDigit a = true) : isSpace a = false :=
  of_isDigit (p := fun c => isSpace c = false) (by decide) h

theorem decodeContent_encodeContent_mx (hhost : ∀ a ∈ host, isSpace a = false) (hdot : host.getLast? ≠ some DOT)
    (p : Nat) : decodeContent MX (encodeContent MX host (some p)) = (host,some p) := by
  have hrecord : encodeContent MX host (some p) = decimal p ++ js " " ++ (host ++ [DOT]) := by
    rw [encodeContent,if_neg (by decide)]
    exact (if_pos rfl).trans (by rw [if_neg hdot])
  have hfull : ∀ a ∈ host ++ [DOT], isSpace a = false := by
    intro a ha
    rcases List.mem_append.mp ha with ha | ha
    · exact hhost a ha
    · rw [List.mem_singleton.mp ha]
      decide
  have hdigits : decimal p ≠ [] ∧ (decimal p).all isDigit := by
    refine ⟨?_,List.all_eq_true.mpr (decimal_digits p)⟩
    simp [decimal,decimalLoop]
  rw [hrecord,decodeContent,if_neg (by decide),if_pos rfl,
    splitSpaces_pair (fun a ha => not_isSpace_of_isDigit (decimal_digits p a ha)) hfull]
  simp only [List.tail_cons,List.headD_cons,List.intercalate_singleton,numberOf,if_pos hdigits,digitsValue_decimal]
  simp [dropDot,dropLastUnit]

/-- Contents survive the provider's presentation forms, and writing a form again changes nothing. -/
theorem desec_codec_roundTrip :
    (∀ c, QUOTE ∉ c → (∀ a ∈ c.head?, isSpace a = false) → ∀ priority again : Option Nat,
      (decodeContent TXT (encodeContent TXT c priority)).1 = c ∧
      (∀ chunk ∈ quotedChunks (encodeContent TXT c priority), chunk.length ≤ 255) ∧
      encodeContent TXT (encodeContent TXT c priority) again = encodeContent TXT c priority) ∧
    ∀ host, (∀ a ∈ host, isSpace a = false) → host.getLast? ≠ some DOT → ∀ p,
      decodeContent MX (encodeContent MX host (some p)) = (host,some p) := by
  refine ⟨fun c hc hspace priority again => ?_,fun host hhost hdot p => ?_⟩
  · have hread := unquote_joinStrings_presented hc hspace
    rw [encodeContent_txt hc]
    refine ⟨?_,?_,?_⟩
    · rw [decodeContent,if_pos rfl,hread]
    · have hchunks : ∀ d ∈ characterStrings c, QUOTE ∉ d := by
        intro d hd hmem
        apply hc
        rw [← characterStrings_flatten c]
        exact List.mem_flatten.mpr ⟨d,hd,hmem⟩
      rw [quotedChunks_presented hchunks]
      exact characterStrings_length c
    · unfold encodeContent
      rw [if_pos rfl,hread]
      rfl
  · exact decodeContent_encodeContent_mx hhost hdot p

/-- A key record that is longer than a character string may be. -/
def longKeyRecord : JsString := js "v=DKIM1; k=rsa; p=MIIB" ++ List.replicate 270 (unit 'A')

theorem desec_codec_roundTrip_key :
    255 < longKeyRecord.length ∧ (decodeContent TXT (encodeContent TXT longKeyRecord none)).1 = longKeyRecord ∧
    decodeContent MX (encodeContent MX (js "mail.ex.com") (some 10)) = (js "mail.ex.com",some 10) :=
  ⟨by decide +kernel,(desec_codec_roundTrip.1 longKeyRecord (by decide +kernel) (by decide) none none).1,
    desec_codec_roundTrip.2 _ (by decide) (by decide) 10⟩

end Codec
end JustMail.Dkim
