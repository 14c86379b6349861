import JustMail.Foundation.CodeUnits
import JustMail.Foundation.NormalForms
import JustMail.Webmail.Threading

/-! The subject that conversations are grouped by is a normal form: it is normalised
already, starts with no reply or forward marker, and is the same with markers in front. -/
namespace JustMail.Webmail.Threading
open Foundation

section Markers

/-- `(\[\d+\])?`. -/
def IsCounter (counter : JsString) : Prop :=
  counter = [] ∨ ∃ digits, digits ≠ [] ∧ (∀ c ∈ digits, isDigit c = true) ∧ counter = unit '[' :: digits ++ [unit ']']

/-- `(re|fwd?|aw|wg|sv|vs|antwort|rif|res)(\[\d+\])?:` in any case. -/
def IsMarker (marker : JsString) : Prop :=
  ∃ word ∈ replyWords, ∃ start counter, AnyCase word start ∧ IsCounter counter ∧ marker = start ++ counter ++ [unit ':']

/-- A text that `SUBJECT_PREFIX` matches as a whole. -/
def MarksReply (p : JsString) : Prop :=
  ∃ before marker after, (∀ c ∈ before, isSpace c = true) ∧ IsMarker marker ∧ (∀ c ∈ after, isSpace c = true) ∧
    p = before ++ marker ++ after

variable {s t word start counter marker before rest : JsString}

theorem replyWords_letters : ∀ word ∈ replyWords, word ≠ [] ∧ ∀ c ∈ word, 97 ≤ c ∧ c ≤ 122 := by
  decide +kernel

theorem isSpace_asciiLower (c : CodeUnit) : isSpace (asciiLower c) = isSpace c := by
  rw [asciiLower]
  split
  · rename_i hc
    have hlo := UInt16.le_iff_toNat_le.mp hc.1
    have hhi := UInt16.le_iff_toNat_le.mp hc.2
    simp only [UInt16.reduceToNat] at hlo hhi
    have hsum : (c + 32).toNat = c.toNat + 32 := by
      rw [UInt16.toNat_add]
      simp only [UInt16.reduceToNat]
      omega
    rw [isSpace_of_graphic (c := c + 32) (UInt16.le_iff_toNat_le.mpr (by simp only [UInt16.reduceToNat]; omega))
      (UInt16.lt_iff_toNat_lt.mpr (by simp only [UInt16.reduceToNat]; omega))]
    rw [isSpace_of_graphic (UInt16.le_iff_toNat_le.mpr (by simp only [UInt16.reduceToNat]; omega))
      (UInt16.lt_iff_toNat_lt.mpr (by simp only [UInt16.reduceToNat]; omega))]
  · rfl

theorem letter_range {c : CodeUnit} (h : 97 ≤ asciiLower c ∧ asciiLower c ≤ 122) : 65 ≤ c ∧ c ≤ 122 := by
  rw [asciiLower] at h
  split at h
  · rename_i hc
    exact ⟨hc.1,UInt16.le_trans hc.2 (by decide)⟩
  · exact ⟨UInt16.le_trans (by decide) h.1,h.2⟩

theorem word_range (hword : word ∈ replyWords) (h : AnyCase word start) : ∀ c ∈ start, 65 ≤ c ∧ c ≤ 122 := by
  intro c hc
  apply letter_range
  apply (replyWords_letters word hword).2
  rw [← h]
  exact List.mem_map_of_mem hc

theorem IsCounter.units (h : IsCounter counter) : ∀ c ∈ counter, c = unit '[' ∨ isDigit c = true ∨ c = unit ']' := by
  rcases h with rfl | ⟨digits,-,hdigits,rfl⟩
  · simp
  · intro c hc
    rcases List.mem_append.mp hc with hc | hc
    · rcases List.mem_cons.mp hc with rfl | hc
      · exact .inl rfl
      · exact .inr (.inl (hdigits c hc))
    · exact .inr (.inr (List.mem_singleton.mp hc))

/-- Units of a marker before its colon. -/
theorem body_units {p : CodeUnit → Prop} (hletter : ∀ c, 65 ≤ c ∧ c ≤ 122 → p c) (hopen : p (unit '[')) (hclose : p (unit ']'))
    (hdigit : ∀ k < 10, p (digit k)) (hword : word ∈ replyWords) (hstart : AnyCase word start) (hcounter : IsCounter counter) :
    ∀ c ∈ start ++ counter, p c := by
  intro c hc
  rcases List.mem_append.mp hc with hc | hc
  · exact hletter c (word_range hword hstart c hc)
  · rcases hcounter.units c hc with rfl | hc | rfl
    · exact hopen
    · exact of_isDigit hdigit hc
    · exact hclose

theorem colon_notMem_body (hword : word ∈ replyWords) (hstart : AnyCase word start) (hcounter : IsCounter counter) :
    unit ':' ∉ start ++ counter := by
  intro hmem
  refine body_units (p := (· ≠ unit ':')) ?_ (by decide) (by decide) (by decide) hword hstart hcounter _ hmem rfl
  rintro c ⟨hlo,-⟩ rfl
  exact absurd hlo (by decide)

theorem IsMarker.solid (h : IsMarker marker) : ∀ c ∈ marker, isSpace c = false := by
  obtain ⟨word,hword,start,counter,hstart,hcounter,rfl⟩ := h
  intro c hc
  rcases List.mem_append.mp hc with hc | hc
  · refine body_units (p := (isSpace · = false)) ?_ (by decide) (by decide) (by decide) hword hstart hcounter c hc
    rintro c ⟨hlo,hhi⟩
    exact isSpace_of_graphic (UInt16.le_trans (by decide) hlo) (UInt16.lt_of_le_of_lt hhi (by decide))
  · rw [List.mem_singleton.mp hc]
    decide

theorem IsMarker.ne_nil (h : IsMarker marker) : marker ≠ [] := by
  obtain ⟨word,-,start,counter,-,-,rfl⟩ := h
  simp

end Markers

section Stripping
variable {s t r word marker before after : JsString}

theorem stripCounter_counter {counter : JsString} (h : IsCounter counter) :
    stripCounter (counter ++ unit ':' :: r) = unit ':' :: r := by
  rcases h with rfl | ⟨digits,hne,hdigits,rfl⟩
  · rfl
  · have hspan := span_run (t := unit ']' :: unit ':' :: r) hdigits (by simp; decide)
    have hs : unit '[' :: digits ++ [unit ']'] ++ unit ':' :: r = unit '[' :: (digits ++ unit ']' :: unit ':' :: r) := by simp
    rw [hs,stripCounter,if_pos List.head?_cons]
    simp only [List.tail_cons,hspan.1,hspan.2]
    exact if_pos ⟨hne,rfl⟩

theorem stripCounter_cases (s : JsString) : ∃ counter, IsCounter counter ∧ s = counter ++ stripCounter s := by
  rw [stripCounter]
  split
  · rename_i hopen
    dsimp only
    split
    · rename_i h
      obtain ⟨hne,hclose⟩ := h
      refine ⟨unit '[' :: s.tail.takeWhile isDigit ++ [unit ']'],.inr ⟨_,hne,fun c hc => List.mem_takeWhile_imp hc,rfl⟩,?_⟩
      have hs := List.cons_head?_tail hopen
      have hrest := List.cons_head?_tail hclose
      rw [List.append_assoc,List.singleton_append,hrest,List.cons_append,List.takeWhile_append_dropWhile,hs]
    · exact ⟨[],.inl rfl,rfl⟩
  · exact ⟨[],.inl rfl,rfl⟩

theorem stripReply_iff : stripReply s word = some t ↔
    ∃ start counter r, AnyCase word start ∧ IsCounter counter ∧ s = start ++ counter ++ unit ':' :: r ∧ t = trimStart r := by
  constructor
  · intro h
    obtain ⟨behind,hbehind,hrest⟩ := Option.bind_eq_some_iff.mp h
    obtain ⟨start,hstart,rfl⟩ := afterLiteral_iff.mp hbehind
    obtain ⟨counter,hcounter,hsplit⟩ := stripCounter_cases behind
    dsimp only at hrest
    split at hrest
    · rename_i hcolon
      cases hrest
      refine ⟨start,counter,(stripCounter behind).tail,hstart,hcounter,?_,rfl⟩
      rw [List.append_assoc,List.cons_head?_tail hcolon,← hsplit]
    · cases hrest
  · rintro ⟨start,counter,r,hstart,hcounter,rfl,rfl⟩
    have hbehind : stripWord word (start ++ counter ++ unit ':' :: r) = some (counter ++ unit ':' :: r) :=
      afterLiteral_iff.mpr ⟨start,hstart,List.append_assoc _ _ _⟩
    rw [stripReply,hbehind,Option.bind_some,stripCounter_counter hcounter]
    rfl

/-- The first colon of the text tells which marker it starts with. -/
theorem findSome_marker (h : IsMarker marker) : replyWords.findSome? (stripReply (marker ++ r)) = some (trimStart r) := by
  obtain ⟨word,hword,start,counter,hstart,hcounter,rfl⟩ := h
  have hs : start ++ counter ++ [unit ':'] ++ r = start ++ counter ++ unit ':' :: r := by simp
  rw [hs]
  have hcut : cut (unit ':') (start ++ counter ++ unit ':' :: r) = _ := cut_append (colon_notMem_body hword hstart hcounter)
  have hsome : (replyWords.findSome? (stripReply (start ++ counter ++ unit ':' :: r))).isSome = true := by
    rw [List.findSome?_isSome_iff]
    exact ⟨word,hword,Option.isSome_iff_exists.mpr ⟨_,stripReply_iff.mpr ⟨start,counter,r,hstart,hcounter,rfl,rfl⟩⟩⟩
  obtain ⟨found,hfound⟩ := Option.isSome_iff_exists.mp hsome
  obtain ⟨word',hword',hreply⟩ := List.exists_of_findSome?_eq_some hfound
  obtain ⟨start',counter',r',hstart',hcounter',heq,rfl⟩ := stripReply_iff.mp hreply
  have hcut' : cut (unit ':') (start' ++ counter' ++ unit ':' :: r') = _ := cut_append (colon_notMem_body hword' hstart' hcounter')
  rw [← heq,hcut] at hcut'
  rw [hfound,(Prod.mk.inj (Option.some.inj hcut')).2]

theorem trimStart_append (hbefore : ∀ c ∈ before, isSpace c = true) (s : JsString) : trimStart (before ++ s) = trimStart s :=
  List.dropWhile_append_of_pos hbefore

theorem trimStart_marker (h : IsMarker marker) (s : JsString) : trimStart (marker ++ s) = marker ++ s := by
  cases hm : marker with
  | nil => exact absurd hm h.ne_nil
  | cons c rest => exact List.dropWhile_cons_of_neg (by simp [h.solid c (by simp [hm])])

/-- A marker goes with the blanks around it. -/
theorem replacePrefix_marker (hbefore : ∀ c ∈ before, isSpace c = true) (h : IsMarker marker) (r : JsString) :
    replacePrefix (before ++ marker ++ r) = trimStart r := by
  rw [replacePrefix,List.append_assoc,trimStart_append hbefore,trimStart_marker h,findSome_marker h]
  rfl

/-- Nothing is taken but a marker and the blanks around it. -/
theorem replacePrefix_cases (s : JsString) : replacePrefix s = s ∨
    ∃ before marker r, (∀ c ∈ before, isSpace c = true) ∧ IsMarker marker ∧ s = before ++ marker ++ r := by
  rw [replacePrefix]
  cases hfind : replyWords.findSome? (stripReply (trimStart s)) with
  | none => exact .inl rfl
  | some found =>
    obtain ⟨word,hword,hreply⟩ := List.exists_of_findSome?_eq_some hfind
    obtain ⟨start,counter,r,hstart,hcounter,heq,rfl⟩ := stripReply_iff.mp hreply
    refine .inr ⟨s.takeWhile isSpace,start ++ counter ++ [unit ':'],r,fun c hc => List.mem_takeWhile_imp hc,
      ⟨word,hword,start,counter,hstart,hcounter,rfl⟩,?_⟩
    have hs : s.takeWhile isSpace ++ trimStart s = s := List.takeWhile_append_dropWhile
    conv_lhs => rw [← hs,heq]
    simp

theorem replacePrefix_suffix (s : JsString) : replacePrefix s <:+ s := by
  rcases replacePrefix_cases s with h | ⟨before,marker,r,hbefore,hmarker,rfl⟩
  · rw [h]
  · rw [replacePrefix_marker hbefore hmarker]
    exact (List.dropWhile_suffix isSpace).trans (List.suffix_append _ _)

theorem trimmed_trim (s : JsString) : TrimmedEnds isSpace (trim s) := ⟨trim_head?,trim_getLast?⟩

theorem replacePrefix_trimmed (h : TrimmedEnds isSpace s) : TrimmedEnds isSpace (replacePrefix s) := by
  apply h.ending (replacePrefix_suffix s)
  rcases replacePrefix_cases s with heq | ⟨before,marker,r,hbefore,hmarker,rfl⟩
  · rw [heq]
    exact h.head
  · rw [replacePrefix_marker hbefore hmarker]
    intro c hc
    have hnot := List.head?_dropWhile_not isSpace r
    rw [show r.dropWhile isSpace = trimStart r from rfl,Option.mem_def.mp hc] at hnot
    exact hnot

/-- A trimmed text that starts with a marker is not left alone. -/
theorem replacePrefix_ne (h : IsMarker marker) (r : JsString) : replacePrefix (marker ++ r) ≠ marker ++ r := by
  intro heq
  have hreplace : replacePrefix ([] ++ marker ++ r) = trimStart r := replacePrefix_marker (by simp) h r
  rw [List.nil_append,heq] at hreplace
  have hlength := congrArg List.length hreplace
  have hshort : (trimStart r).length ≤ r.length := (List.dropWhile_suffix isSpace).length_le
  have hpos := List.length_pos_of_ne_nil h.ne_nil
  rw [List.length_append] at hlength
  omega

/-- The loop ends, and with what the fuel of the text's length gives. -/
theorem settles_stripPrefixes (s : JsString) : LoopsTo replacePrefix s (stripPrefixes s.length s) := by
  have hloop : ∀ fuel s, replacePrefix (stripPrefixes fuel s) = stripPrefixes fuel s →
      LoopsTo replacePrefix s (stripPrefixes fuel s) := by
    intro fuel
    induction fuel with
    | zero => exact fun s h => .stop h
    | succ fuel ih =>
      intro s h
      rw [stripPrefixes] at h ⊢
      split
      · exact .stop ‹_›
      · rename_i hne
        rw [if_neg hne] at h
        exact .again hne (ih _ h)
  exact hloop _ s (replacePrefix_stripPrefixes _ s le_rfl)

/-- The loop of a text with blanks and a marker in front ends as that of the text. -/
theorem stripPrefixes_marked {p : JsString} (hp : MarksReply p) (s : JsString) :
    stripPrefixes (trim (p ++ s)).length (trim (p ++ s)) = stripPrefixes (trim s).length (trim s) := by
  obtain ⟨before,marker,after,hbefore,hmarker,hafter,rfl⟩ := hp
  have htrim : trim (before ++ marker ++ after ++ s) = [] ++ marker ++ trimEnd (after ++ s) := by
    rw [trim,List.append_assoc,List.append_assoc,trimStart_append hbefore,trimStart_marker hmarker]
    exact rdropWhile_append hmarker.ne_nil fun c hc => hmarker.solid c (List.mem_of_mem_getLast? hc)
  have hstep : replacePrefix (trim (before ++ marker ++ after ++ s)) = trim s := by
    rw [htrim,replacePrefix_marker (by simp) hmarker]
    calc trimStart (trimEnd (after ++ s))
      _ = trimEnd (trimStart (after ++ s)) := dropWhile_rdropWhile isSpace _
      _ = trim s := by rw [trimStart_append hafter,trim]
  have hsettles := settles_stripPrefixes (trim s)
  rw [← hstep] at hsettles
  exact (settles_stripPrefixes _).unique (by simpa only [hstep] using hsettles.of_step)

end Stripping

section Collapsing
variable {s m : JsString} {c : CodeUnit}

theorem collapseSpaces_blank (hc : isSpace c = true) (s : JsString) :
    collapseSpaces (c :: s) = if s.head?.any isSpace then collapseSpaces s else unit ' ' :: collapseSpaces s := by
  rw [collapseSpaces,if_pos hc]

theorem collapseSpaces_solid (hc : isSpace c = false) (s : JsString) :
    collapseSpaces (c :: s) = c :: collapseSpaces s := by
  rw [collapseSpaces,if_neg (by simp [hc])]

/-- A run of white space becomes a blank, so white space comes first where it did. -/
theorem collapseSpaces_head (s : JsString) : (collapseSpaces s).head?.any isSpace = s.head?.any isSpace := by
  induction s with
  | nil => rfl
  | cons c s ih =>
    cases hc : isSpace c with
    | false => rw [collapseSpaces_solid hc,List.head?_cons,List.head?_cons]
    | true =>
      rw [collapseSpaces_blank hc]
      split
      · rename_i hnext
        rw [ih,hnext]
        simp [hc]
      · rw [List.head?_cons,List.head?_cons]
        simp only [Option.any_some,hc]
        decide

theorem collapseSpaces_idempotent (s : JsString) : collapseSpaces (collapseSpaces s) = collapseSpaces s := by
  induction s with
  | nil => rfl
  | cons c s ih =>
    cases hc : isSpace c with
    | false => rw [collapseSpaces_solid hc,collapseSpaces_solid hc,ih]
    | true =>
      rw [collapseSpaces_blank hc]
      split
      · exact ih
      · rename_i hnext
        rw [collapseSpaces_blank (by decide),collapseSpaces_head,if_neg hnext,ih]

theorem mem_collapseSpaces (h : c ∈ collapseSpaces s) : c = unit ' ' ∨ c ∈ s := by
  induction s with
  | nil => cases h
  | cons d s ih =>
    have hrest (h : c ∈ collapseSpaces s) : c = unit ' ' ∨ c ∈ d :: s := (ih h).imp_right (List.mem_cons_of_mem d)
    cases hd : isSpace d with
    | false =>
      rw [collapseSpaces_solid hd] at h
      rcases List.mem_cons.mp h with rfl | h
      · exact .inr List.mem_cons_self
      · exact hrest h
    | true =>
      rw [collapseSpaces_blank hd] at h
      split at h
      · exact hrest h
      · rcases List.mem_cons.mp h with h | h
        · exact .inl h
        · exact hrest h

/-- Text before the first white space is kept. -/
theorem solid_start (hm : ∀ c ∈ m, isSpace c = false) (h : m <+: collapseSpaces s) : m <+: s := by
  induction s generalizing m with
  | nil => exact h
  | cons c s ih =>
    cases m with
    | nil => exact List.nil_prefix
    | cons d m =>
      have hd : isSpace d = false := hm d List.mem_cons_self
      cases hc : isSpace c with
      | true =>
        have hhead : (collapseSpaces (c :: s)).head?.any isSpace = true := by rw [collapseSpaces_head,List.head?_cons,Option.any_some,hc]
        obtain ⟨rest,hrest⟩ := h
        rw [← hrest] at hhead
        simp [hd] at hhead
      | false =>
        rw [collapseSpaces_solid hc,List.cons_prefix_cons] at h
        obtain ⟨rfl,h⟩ := h
        exact List.cons_prefix_cons.mpr ⟨rfl,ih (fun c hc => hm c (List.mem_cons_of_mem _ hc)) h⟩

theorem collapseSpaces_last (h : s.getLast? = some c) (hc : isSpace c = false) : (collapseSpaces s).getLast? = some c := by
  induction s with
  | nil => cases h
  | cons d s ih =>
    cases s with
    | nil =>
      obtain rfl : d = c := by simpa using h
      rw [collapseSpaces_solid hc]
      rfl
    | cons e s =>
      rw [List.getLast?_cons_cons] at h
      have hlast := ih h
      have hcons (b : CodeUnit) : (b :: collapseSpaces (e :: s)).getLast? = some c := by
        cases hcollapse : collapseSpaces (e :: s) with
        | nil => simp [hcollapse] at hlast
        | cons f t => rwa [List.getLast?_cons_cons,← hcollapse]
      cases hd : isSpace d with
      | false =>
        rw [collapseSpaces_solid hd]
        exact hcons d
      | true =>
        rw [collapseSpaces_blank hd]
        split
        · exact hlast
        · exact hcons _

theorem collapseSpaces_trimmed (h : TrimmedEnds isSpace s) : TrimmedEnds isSpace (collapseSpaces s) where
  head := by
    intro c hc
    have hhead := collapseSpaces_head s
    rw [Option.mem_def.mp hc,Option.any_some] at hhead
    rw [hhead]
    cases hs : s.head? with
    | none => rfl
    | some d => exact h.head d hs
  last := by
    intro c hc
    cases hs : s.getLast? with
    | none =>
      rw [List.getLast?_eq_none_iff.mp hs] at hc
      cases hc
    | some d =>
      have hd := h.last d hs
      rw [collapseSpaces_last hs hd,Option.mem_some_iff] at hc
      rwa [← hc]

end Collapsing

section NormalForm
variable {s marker : JsString}

theorem asciiLower_trimmed (h : TrimmedEnds isSpace s) : TrimmedEnds isSpace (s.map asciiLower) where
  head := by
    intro c hc
    rw [List.head?_map] at hc
    obtain ⟨d,hd,rfl⟩ := Option.map_eq_some_iff.mp hc
    rw [isSpace_asciiLower]
    exact h.head d hd
  last := by
    intro c hc
    rw [List.getLast?_map] at hc
    obtain ⟨d,hd,rfl⟩ := Option.map_eq_some_iff.mp hc
    rw [isSpace_asciiLower]
    exact h.last d hd

/-- Only letters have another case. -/
theorem asciiLower_eq_self {c : CodeUnit} (h : ¬ (97 ≤ asciiLower c ∧ asciiLower c ≤ 122)) : asciiLower c = c := by
  by_contra hne
  apply h
  rw [asciiLower] at hne ⊢
  split at hne
  · rename_i hc
    rw [if_pos hc]
    have hlo := UInt16.le_iff_toNat_le.mp hc.1
    have hhi := UInt16.le_iff_toNat_le.mp hc.2
    simp only [UInt16.reduceToNat] at hlo hhi
    have hsum : (c + 32).toNat = c.toNat + 32 := by
      rw [UInt16.toNat_add]
      simp only [UInt16.reduceToNat]
      omega
    constructor
    · apply UInt16.le_iff_toNat_le.mpr
      simp only [UInt16.reduceToNat]
      omega
    · apply UInt16.le_iff_toNat_le.mpr
      simp only [UInt16.reduceToNat]
      omega
  · exact absurd rfl hne

theorem map_asciiLower_eq_self (h : ∀ c ∈ s, asciiLower c = c) : s.map asciiLower = s :=
  (List.map_congr_left h).trans (List.map_id' s)

/-- The case of its letters does not make a text a marker. -/
theorem IsMarker.of_lower (h : IsMarker (marker.map asciiLower)) : IsMarker marker := by
  obtain ⟨word,hword,start,counter,hstart,hcounter,heq⟩ := h
  obtain ⟨body,colon,rfl,hbody,hcolon⟩ := List.map_eq_append_iff.mp heq
  obtain ⟨start',counter',rfl,rfl,rfl⟩ := List.map_eq_append_iff.mp hbody
  have hstart' : AnyCase word start' := by
    unfold AnyCase at hstart ⊢
    rw [← hstart,List.map_map]
    exact List.map_congr_left fun c _ => (asciiLower_idempotent c).symm
  have hunit : ∀ c ∈ counter'.map asciiLower, ¬ (97 ≤ c ∧ c ≤ 122) := by
    intro c hc
    rcases hcounter.units c hc with rfl | hc | rfl
    · decide
    · exact of_isDigit (p := fun c => ¬ (97 ≤ c ∧ c ≤ 122)) (by decide) hc
    · decide
  have hsame : counter'.map asciiLower = counter' :=
    map_asciiLower_eq_self fun c hc => asciiLower_eq_self (hunit _ (List.mem_map_of_mem hc))
  have hcolon' : colon = [unit ':'] := by
    cases colon with
    | nil => cases hcolon
    | cons c rest =>
      obtain ⟨hc,hrest⟩ := List.cons.inj hcolon
      rw [List.map_eq_nil_iff.mp hrest,← asciiLower_eq_self (c := c) (by rw [hc]; decide),hc]
  rw [hsame] at hcounter
  exact ⟨word,hword,start',counter',hstart',hcounter,by rw [hcolon']⟩

/-- What the loop leaves of a subject without white space around it. -/
def stripped (s : JsString) : JsString := stripPrefixes (trim s).length (trim s)

theorem stripped_trimmed (s : JsString) : TrimmedEnds isSpace (stripped s) :=
  (settles_stripPrefixes (trim s)).preserves (fun _ => replacePrefix_trimmed) (trimmed_trim s)

theorem stripped_no_marker (s : JsString) (h : IsMarker marker) : ¬ marker <+: stripped s := by
  rintro ⟨r,hr⟩
  have hfixed := (settles_stripPrefixes (trim s)).fixed
  change replacePrefix (stripped s) = stripped s at hfixed
  rw [← hr] at hfixed
  exact replacePrefix_ne h r hfixed

/-- The last trim finds nothing to take. -/
theorem normalizeSubject_eq (s : JsString) :
    normalizeSubject asciiCase (some s) = collapseSpaces ((stripped s).map asciiLower) := by
  have htrimmed := collapseSpaces_trimmed (asciiLower_trimmed (stripped_trimmed s))
  change trim (collapseSpaces ((stripped s).map asciiLower)) = _
  exact trim_eq_self htrimmed.head htrimmed.last

theorem normalizeSubject_trimmed (s : JsString) : TrimmedEnds isSpace (normalizeSubject asciiCase (some s)) := by
  rw [normalizeSubject_eq]
  exact collapseSpaces_trimmed (asciiLower_trimmed (stripped_trimmed s))

/-- Neither the case of the letters nor the white space hides a marker from the loop. -/
theorem normalizeSubject_no_marker (s : JsString) (h : IsMarker marker) : ¬ marker <+: normalizeSubject asciiCase (some s) := by
  intro hstart
  rw [normalizeSubject_eq] at hstart
  obtain ⟨start,hsub,heq⟩ := List.prefix_map_iff.mp (solid_start h.solid hstart)
  rw [heq] at h
  exact stripped_no_marker s h.of_lower hsub

theorem normalizeSubject_no_reply (s : JsString) {p : JsString} (hp : MarksReply p) :
    ¬ p <+: normalizeSubject asciiCase (some s) := by
  obtain ⟨before,marker,after,hbefore,hmarker,-,rfl⟩ := hp
  intro hstart
  cases before with
  | nil => exact normalizeSubject_no_marker s hmarker ((List.prefix_append marker after).trans hstart)
  | cons c before =>
    obtain ⟨rest,hrest⟩ := hstart
    have hc : isSpace c = false := (normalizeSubject_trimmed s).head c (by rw [← hrest]; rfl)
    rw [hbefore c List.mem_cons_self] at hc
    cases hc

/-- A trimmed text without a marker in front is left to the loop as it is. -/
theorem stripped_eq_self (htrimmed : TrimmedEnds isSpace s) (hno : ∀ marker, IsMarker marker → ¬ marker <+: s) : stripped s = s := by
  have hfixed : replacePrefix s = s := by
    rcases replacePrefix_cases s with h | ⟨before,marker,r,hbefore,hmarker,rfl⟩
    · exact h
    · cases before with
      | nil => exact absurd ⟨r,by simp⟩ (hno marker hmarker)
      | cons c before =>
        have hc := htrimmed.head c rfl
        rw [hbefore c List.mem_cons_self] at hc
        cases hc
  have hsettles := settles_stripPrefixes (trim s)
  rw [trim_eq_self htrimmed.head htrimmed.last] at hsettles
  rw [stripped,trim_eq_self htrimmed.head htrimmed.last]
  exact hsettles.unique (.stop hfixed)

theorem normalizeSubject_idempotent (s : JsString) :
    normalizeSubject asciiCase (some (normalizeSubject asciiCase (some s))) = normalizeSubject asciiCase (some s) := by
  rw [normalizeSubject_eq,stripped_eq_self (normalizeSubject_trimmed s) (fun _ => normalizeSubject_no_marker s),normalizeSubject_eq]
  have hlower : (collapseSpaces ((stripped s).map asciiLower)).map asciiLower = collapseSpaces ((stripped s).map asciiLower) := by
    apply map_asciiLower_eq_self
    intro c hc
    rcases mem_collapseSpaces hc with rfl | hc
    · decide
    · obtain ⟨d,-,rfl⟩ := List.mem_map.mp hc
      exact asciiLower_idempotent d
  rw [hlower,collapseSpaces_idempotent]

/-- Markers in front of a subject, whatever their number, change nothing. -/
theorem normalizeSubject_marked (cm : CaseMapping) {ps : List JsString} (hps : ∀ p ∈ ps, MarksReply p) (s : JsString) :
    normalizeSubject cm (some (ps.flatten ++ s)) = normalizeSubject cm (some s) := by
  induction ps with
  | nil => rfl
  | cons p ps ih =>
    rw [← ih fun q hq => hps q (List.mem_cons_of_mem _ hq),List.flatten_cons,List.append_assoc]
    have hstrip := stripPrefixes_marked (hps p List.mem_cons_self) (ps.flatten ++ s)
    simp only [normalizeSubject,Option.getD_some,hstrip]

/-- The loop ends, and what is made of its result is a normal form: it is left alone when
normalised again, no reply or forward marker is in front of it, and it is the same for
the subject with markers in front. -/
theorem normalizeSubject_normal_form (s : JsString) :
    (∃ t, LoopsTo replacePrefix (trim s) t ∧
      normalizeSubject asciiCase (some s) = trim (collapseSpaces (asciiCase.toLowerCase t))) ∧
    normalizeSubject asciiCase (some (normalizeSubject asciiCase (some s))) = normalizeSubject asciiCase (some s) ∧
    (∀ p, MarksReply p → ¬ p <+: normalizeSubject asciiCase (some s)) ∧
    ∀ ps : List JsString, (∀ p ∈ ps, MarksReply p) →
      normalizeSubject asciiCase (some (ps.flatten ++ s)) = normalizeSubject asciiCase (some s) :=
  ⟨⟨_,settles_stripPrefixes (trim s),rfl⟩,normalizeSubject_idempotent s,fun _ => normalizeSubject_no_reply s,
    fun _ hps => normalizeSubject_marked asciiCase hps s⟩

/-- A forwarded answer, with a counter and blanks around the marker. -/
theorem normalizeSubject_normal_form_sample :
    normalizeSubject asciiCase (some ([js " Fw[2]: ",js "RE:"].flatten ++ js "Ab")) = normalizeSubject asciiCase (some (js "Ab")) := by
  refine (normalizeSubject_normal_form (js "Ab")).2.2.2 _ ?_
  have hforward : MarksReply (js " Fw[2]: ") :=
    ⟨js " ",js "Fw[2]:",js " ",by decide,⟨js "fw",by decide,js "Fw",js "[2]",(by decide : (js "Fw").map asciiLower = js "fw"),
      .inr ⟨js "2",by decide,by decide,by decide⟩,by decide⟩,by decide,by decide⟩
  have hreply : MarksReply (js "RE:") :=
    ⟨[],js "RE:",[],by decide,
      ⟨js "re",by decide,js "RE",[],(by decide : (js "RE").map asciiLower = js "re"),.inl rfl,by decide⟩,by decide,by decide⟩
  intro p hp
  rcases List.mem_cons.mp hp with rfl | hp
  · exact hforward
  · rw [List.mem_singleton.mp hp]
    exact hreply

end NormalForm

end JustMail.Webmail.Threading
