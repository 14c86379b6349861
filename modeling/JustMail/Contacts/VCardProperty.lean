import JustMail.Contacts.VCard
import JustMail.Foundation.ContentLines
import Mathlib.Data.List.Nodup
import Mathlib.Data.List.Perm.Basic

/-! What `parseProperty` of `contacts/vcard.ts` makes of a content line of the grammar. -/
namespace JustMail.Contacts
open Foundation Foundation.ContentLine Dav.ContentLine

section Maps
variable {m m' : List (JsString × List JsString)} {key : JsString} {vs : List JsString} {d : CodeUnit}

theorem lookup_pushParam (m : List (JsString × List JsString)) (k : JsString) (vs : List JsString) (key : JsString) :
    (pushParam m k vs).lookup key = if key = k then some ((m.lookup k).getD [] ++ vs) else m.lookup key := by
  have hmap (m : List (JsString × List JsString)) : (m.map fun p => if p.1 = k then (p.1,p.2 ++ vs) else p).lookup key =
      if key = k then (m.lookup k).map (· ++ vs) else m.lookup key := by
    induction m with
    | nil => simp
    | cons e m ih =>
      obtain ⟨k',us⟩ := e
      by_cases hk' : k' = k
      · subst hk'
        by_cases hkey : key = k'
        · simp [hkey]
        · simpa [hkey,List.lookup_cons,beq_eq_false_iff_ne.mpr hkey] using ih
      · by_cases hkey : key = k'
        · subst hkey
          simp [hk']
        · rw [List.map_cons,if_neg hk',List.lookup_cons,List.lookup_cons,List.lookup_cons,beq_eq_false_iff_ne.mpr hkey,
            beq_eq_false_iff_ne.mpr (Ne.symm hk')]
          exact ih
  unfold pushParam
  split
  · rename_i hsome
    obtain ⟨us,hus⟩ := Option.isSome_iff_exists.mp hsome
    rw [hmap,hus]
    rfl
  · rename_i hnone
    rw [Bool.not_eq_true,Option.isSome_eq_false_iff,Option.isNone_iff_eq_none] at hnone
    rw [List.lookup_append,hnone]
    by_cases hkey : key = k
    · simp [hkey,hnone]
    · simp [hkey,List.lookup_cons,beq_eq_false_iff_ne.mpr hkey]

theorem nodup_pushParam (h : (m.map Prod.fst).Nodup) (k : JsString) (vs : List JsString) : ((pushParam m k vs).map Prod.fst).Nodup := by
  unfold pushParam
  split
  · have hkeys : (m.map fun p => if p.1 = k then (p.1,p.2 ++ vs) else p).map Prod.fst = m.map Prod.fst := by
      rw [List.map_map]
      refine List.map_congr_left fun p _ => ?_
      rw [Function.comp_apply]
      split
      · rfl
      · rfl
    rwa [hkeys]
  · rename_i hnone
    rw [Bool.not_eq_true,Option.isSome_eq_false_iff,Option.isNone_iff_eq_none,List.lookup_eq_none_iff] at hnone
    rw [List.map_append,List.nodup_append]
    refine ⟨h,List.nodup_singleton _,?_⟩
    rintro _ hk _ hk' rfl
    obtain ⟨e,he,rfl⟩ := List.mem_map.mp hk
    obtain rfl := List.mem_singleton.mp hk'
    simpa using hnone e he

theorem nodup_empty : (([] : List (JsString × List JsString)).map Prod.fst).Nodup := List.nodup_nil

theorem mem_iff_lookup (h : (m.map Prod.fst).Nodup) {e : JsString × List JsString} : e ∈ m ↔ m.lookup e.1 = some e.2 := by
  induction m with
  | nil => simp
  | cons f m ih =>
    obtain ⟨hf,hm⟩ := List.nodup_cons.mp h
    rw [List.mem_cons,ih hm,List.lookup_cons]
    by_cases hkey : e.1 = f.1
    · have hnone : m.lookup f.1 = none := List.lookup_eq_none_iff.mpr fun g hg => by
        simpa using fun he : f.1 = g.1 => hf (he ▸ List.mem_map_of_mem hg)
      rw [hkey,beq_self_eq_true,hnone]
      constructor
      · rintro (rfl | hne)
        · rfl
        · cases hne
      · intro hvalue
        exact .inl (Prod.ext hkey (Option.some.inj hvalue).symm)
    · rw [beq_eq_false_iff_ne.mpr hkey]
      refine or_iff_right fun he => hkey (he ▸ rfl)

/-- How often a unit stands in all the values of the map. -/
def weight (d : CodeUnit) (m : List (JsString × List JsString)) : Nat := (m.map fun e => (e.2.map (List.count d)).sum).sum

/-- Maps with the same values hold the same units. -/
theorem weight_congr (h : (m.map Prod.fst).Nodup) (h' : (m'.map Prod.fst).Nodup) (hlookup : ∀ key, m.lookup key = m'.lookup key) :
    weight d m = weight d m' := by
  have hperm : m.Perm m' := (List.perm_ext_iff_of_nodup h.of_map h'.of_map).mpr fun e => by
    rw [mem_iff_lookup h,mem_iff_lookup h',hlookup]
  exact (hperm.map _).sum_nat

theorem weight_pushParam (h : (m.map Prod.fst).Nodup) (k : JsString) (vs : List JsString) :
    weight d (pushParam m k vs) = weight d m + (vs.map (List.count d)).sum := by
  have hmap (m : List (JsString × List JsString)) (hm : (m.map Prod.fst).Nodup) (hk : k ∈ m.map Prod.fst) :
      weight d (m.map fun p => if p.1 = k then (p.1,p.2 ++ vs) else p) = weight d m + (vs.map (List.count d)).sum := by
    induction m with
    | nil => cases hk
    | cons e m ih =>
      obtain ⟨he,hm⟩ := List.nodup_cons.mp hm
      by_cases hek : e.1 = k
      · have hrest : (m.map fun p => if p.1 = k then (p.1,p.2 ++ vs) else p) = m :=
          (List.map_congr_left fun p hp => if_neg fun hpk => he (by rw [hek,← hpk]; exact List.mem_map_of_mem hp)).trans (List.map_id m)
        rw [List.map_cons,hrest,if_pos hek]
        simp only [weight,List.map_cons,List.sum_cons,List.map_append,List.sum_append]
        omega
      · have hrest := ih hm ((List.mem_cons.mp hk).resolve_left (Ne.symm hek))
        rw [List.map_cons,if_neg hek]
        simp only [weight,List.map_cons,List.sum_cons] at hrest ⊢
        omega
  unfold pushParam
  split
  · rename_i hsome
    obtain ⟨us,hus⟩ := Option.isSome_iff_exists.mp hsome
    exact hmap m h (List.mem_map_of_mem ((mem_iff_lookup h (e := (k,us))).mpr hus))
  · simp [weight]

end Maps
section Grammar
variable (casing : CaseMapping)

/-- The values of a parameter, from all the places where it is given. -/
def valuesOf (params : List Parameter) (key : JsString) : Option (List JsString) :=
  match params.filter fun p => casing.toUpperCase p.name = key with
  | [] => none
  | given => some (given.flatMap fun p => p.values.map ParamValue.text)

/-- A line is read as the grammar has it. -/
structure ParsedAs (line : ContentLine) (prop : RawProperty) : Prop where
  name : prop.name = casing.toUpperCase line.name
  params : ∀ key, prop.params.lookup key = valuesOf casing line.params key
  value : prop.value = line.value

def ReadsLine (line : ContentLine) : Prop := ∃ prop, parseProperty casing line.render = some prop ∧ ParsedAs casing line prop

/-- In quotes no comma stands, and no semicolon without a backslash. -/
def Unsplit (v : ParamValue) : Prop :=
  match v with
  | .plain _ => True
  | .quoted text => (splitUnescaped text (unit ';')).length = 1 ∧ unit ',' ∉ text

def Readable (line : ContentLine) : Prop := line.group = none ∧ ∀ p ∈ line.params, ∀ v ∈ p.values, Unsplit v

end Grammar

section Colon
variable {s t : JsString}

theorem cutUnquoted_quote (inQuote : Bool) (s : JsString) :
    cutUnquoted inQuote (QUOTE :: s) = (cutUnquoted (!inQuote) s).map fun p => (QUOTE :: p.1,p.2) := by
  rw [cutUnquoted]
  exact if_pos rfl

theorem cutUnquoted_other {c : CodeUnit} {inQuote : Bool} (hq : c ≠ QUOTE)
    (hc : ¬(c = ContentLine.COLON ∧ inQuote = false)) (s : JsString) :
    cutUnquoted inQuote (c :: s) = (cutUnquoted inQuote s).map fun p => (c :: p.1,p.2) := by
  rw [cutUnquoted]
  exact (if_neg hq).trans (if_neg hc)

/-- The search for the colon passes over the text. -/
def Passed (s : JsString) : Prop := ∀ t, cutUnquoted false (s ++ t) = (cutUnquoted false t).map fun p => (s ++ p.1,p.2)

theorem Passed.append (hs : Passed s) (ht : Passed t) : Passed (s ++ t) := by
  intro u
  rw [List.append_assoc,hs,ht]
  cases cutUnquoted false u with
  | none => rfl
  | some p => exact congrArg some (Prod.ext (List.append_assoc _ _ _).symm rfl)

theorem passed_plain (hq : QUOTE ∉ s) (hc : ContentLine.COLON ∉ s) : Passed s := by
  intro t
  induction s with
  | nil => simp
  | cons c s ih =>
    rw [List.mem_cons,not_or] at hq hc
    rw [List.cons_append,cutUnquoted_other (Ne.symm hq.1) fun h => hc.1 h.1.symm,ih hq.2 hc.2,Option.map_map]
    rfl

theorem passed_quoted (hq : QUOTE ∉ s) : Passed (QUOTE :: (s ++ [QUOTE])) := by
  intro t
  have hinside (s : JsString) (hq : QUOTE ∉ s) :
    cutUnquoted true (s ++ QUOTE :: t) = (cutUnquoted false t).map fun p => (s ++ QUOTE :: p.1,p.2) := by
    induction s with
    | nil => exact cutUnquoted_quote true t
    | cons c s ih =>
      rw [List.mem_cons,not_or] at hq
      rw [List.cons_append,cutUnquoted_other (Ne.symm hq.1) (by simp),ih hq.2,Option.map_map]
      rfl
  rw [List.cons_append,cutUnquoted_quote,List.append_assoc]
  change (cutUnquoted true (s ++ QUOTE :: t)).map _ = _
  rw [hinside s hq]
  cases cutUnquoted false t with
  | none => rfl
  | some p => exact congrArg some (Prod.ext (by simp) rfl)

theorem passed_intercalate {parts : List JsString} (h : ∀ part ∈ parts, Passed part) : Passed ([COMMA].intercalate parts) := by
  induction parts with
  | nil => exact passed_plain (s := []) List.not_mem_nil List.not_mem_nil
  | cons part parts ih =>
    obtain ⟨hpart,hparts⟩ := List.forall_mem_cons.mp h
    cases parts with
    | nil => simpa using hpart
    | cons next parts =>
      rw [List.intercalate_cons_cons]
      exact (hpart.append (passed_plain (by decide) (by decide))).append (ih hparts)

theorem passed_render {v : ParamValue} (h : v.Valid) : Passed v.render := by
  cases v with
  | plain text => exact passed_plain (fun hm => absurd (h _ hm) (by decide)) (fun hm => absurd (h _ hm) (by decide))
  | quoted text => exact passed_quoted fun hm => absurd (h _ hm) (by decide)

theorem passed_params {ps : List Parameter} (h : ∀ p ∈ ps, p.Valid) : Passed (ps.flatMap fun p => SEMICOLON :: p.render) := by
  induction ps with
  | nil => exact passed_plain (s := []) List.not_mem_nil List.not_mem_nil
  | cons p ps ih =>
    obtain ⟨hp,hps⟩ := List.forall_mem_cons.mp h
    have hname : Passed (SEMICOLON :: p.name) :=
      passed_plain (by simpa [show QUOTE ≠ SEMICOLON by decide] using hp.name.notMem (by decide))
      (by simpa [show ContentLine.COLON ≠ SEMICOLON by decide] using hp.name.notMem (by decide))
    have hlist : Passed (EQUALS :: renderedList p.values) := by
      refine (passed_plain (s := [EQUALS]) (by decide) (by decide)).append (passed_intercalate fun part hpart => ?_)
      obtain ⟨v,hv,rfl⟩ := List.mem_map.mp hpart
      exact passed_render (hp.each v hv)
    have happend : (p :: ps).flatMap (fun p => SEMICOLON :: p.render) =
        (SEMICOLON :: p.name) ++ (EQUALS :: renderedList p.values) ++ ps.flatMap fun p => SEMICOLON :: p.render := by
      rw [List.flatMap_cons,Parameter.render_eq]
      simp
    rw [happend]
    exact (hname.append hlist).append (ih hps)

theorem cutUnquoted_line {line : ContentLine} (h : line.Valid) : cutUnquoted false line.render = some (line.head,line.value) := by
  have hname : Passed line.fullName := passed_plain (h.fullName_notMem (by decide) (by decide)) (h.fullName_notMem (by decide) (by decide))
  have hhead : Passed line.head := hname.append (passed_params h.params)
  have hcolon : cutUnquoted false (ContentLine.COLON :: line.value) = some ([],line.value) := by
    rw [cutUnquoted]
    exact (if_neg (by decide)).trans (if_pos ⟨rfl,rfl⟩)
  rw [ContentLine.render,hhead,hcolon,Option.map_some,List.append_nil]

end Colon
section Segments
variable {s : JsString} {v : ParamValue} {p : Parameter} {ps : List Parameter} {line : ContentLine}

/-- A whole stretch of the head. -/
abbrev InOne (s : JsString) : Prop := Whole BACKSLASH (unit ';') s

theorem inOne_name (h : IsToken s) : InOne s := whole_plain (h.notMem (by decide)) (h.notMem (by decide))

theorem inOne_fullName (h : line.Valid) : InOne line.fullName :=
  whole_plain (h.fullName_notMem (by decide) (by decide)) (h.fullName_notMem (by decide) (by decide))

/-- The parts that a value adds. -/
def extra (v : ParamValue) : Nat :=
  match v with
  | .plain _ => 0
  | .quoted text => (splitUnescaped text (unit ';')).length - 1

theorem unsplit_iff : Unsplit v ↔ extra v = 0 ∧ ∀ text, v = .quoted text → unit ',' ∉ text := by
  cases v with
  | plain text => exact iff_of_true trivial ⟨rfl,fun _ h => nomatch h⟩
  | quoted text =>
    have hpos : 0 < (splitUnescaped text (unit ';')).length := length_splitUnescapedFrom_pos [] text
    have hone : (splitUnescaped text (unit ';')).length = 1 ↔ (splitUnescaped text (unit ';')).length - 1 = 0 := by omega
    refine and_congr hone ⟨fun h text ht => ?_,fun h => h text rfl⟩
    cases ht
    exact h

theorem splits_render (h : v.Valid) : Splits BACKSLASH (unit ';') (extra v) v.render := by
  cases v with
  | plain text => exact (whole_plain (fun hm => absurd (h _ hm) (by decide)) (fun hm => absurd (h _ hm) (by decide))).splits
  | quoted text =>
    have hopening : Whole BACKSLASH (unit ';') [QUOTE] := whole_plain (by decide) (by decide)
    have hall := hopening.splits.append
      (splits_closed (by decide) (by decide) (by decide) text : Splits BACKSLASH (unit ';') _ (text ++ [QUOTE]))
    rw [Nat.zero_add] at hall
    exact hall

theorem inOne_render (h : v.Valid) (hextra : extra v = 0) : InOne v.render := by
  cases v with
  | plain text => exact whole_plain (fun hm => absurd (h _ hm) (by decide)) (fun hm => absurd (h _ hm) (by decide))
  | quoted text =>
    have hpos : 0 < (splitUnescaped text (unit ';')).length := length_splitUnescapedFrom_pos [] text
    have hone : (splitUnescaped text (unit ';')).length = 1 := by
      rw [extra] at hextra
      omega
    exact (whole_plain (s := [QUOTE]) (by decide) (by decide)).append (whole_closed (by decide) (by decide) hone)

theorem splits_values {vs : List ParamValue} (h : ∀ v ∈ vs, v.Valid) :
    Splits BACKSLASH (unit ';') (vs.map extra).sum (renderedList vs) := by
  induction vs with
  | nil => exact (whole_plain (s := []) List.not_mem_nil List.not_mem_nil).splits
  | cons v vs ih =>
    obtain ⟨hv,hvs⟩ := List.forall_mem_cons.mp h
    cases vs with
    | nil => simpa [renderedList] using splits_render hv
    | cons w ws =>
      have hcomma : Splits BACKSLASH (unit ';') 0 [COMMA] := (whole_plain (by decide) (by decide)).splits
      have hall := (splits_render hv).append (hcomma.append (ih hvs))
      rw [renderedList_cons_cons,List.map_cons,List.sum_cons]
      rwa [Nat.zero_add] at hall

theorem inOne_values {vs : List ParamValue} (h : ∀ v ∈ vs, v.Valid) (hextra : ∀ v ∈ vs, extra v = 0) : InOne (renderedList vs) := by
  induction vs with
  | nil => exact whole_plain List.not_mem_nil List.not_mem_nil
  | cons v vs ih =>
    obtain ⟨hv,hvs⟩ := List.forall_mem_cons.mp h
    obtain ⟨hfirst,hextras⟩ := List.forall_mem_cons.mp hextra
    cases vs with
    | nil => simpa [renderedList] using inOne_render hv hfirst
    | cons w ws =>
      rw [renderedList_cons_cons]
      exact (inOne_render hv hfirst).append ((whole_plain (s := [COMMA]) (by decide) (by decide)).append (ih hvs hextras))

theorem splits_param (h : p.Valid) : Splits BACKSLASH (unit ';') (p.values.map extra).sum p.render := by
  have hequals : Splits BACKSLASH (unit ';') 0 [EQUALS] := (whole_plain (by decide) (by decide)).splits
  have hall := (inOne_name h.name).splits.append (hequals.append (splits_values h.each))
  rwa [Nat.zero_add,Nat.zero_add] at hall

theorem inOne_param (h : p.Valid) (hextra : ∀ v ∈ p.values, extra v = 0) : InOne p.render :=
  (inOne_name h.name).append ((whole_plain (s := [EQUALS]) (by decide) (by decide)).append (inOne_values h.each hextra))

theorem splits_params (h : ∀ p ∈ ps, p.Valid) :
    Splits BACKSLASH (unit ';') (ps.length + (ps.map fun p => (p.values.map extra).sum).sum)
    (ps.flatMap fun p => SEMICOLON :: p.render) := by
  induction ps with
  | nil => exact (whole_plain (s := []) List.not_mem_nil List.not_mem_nil).splits
  | cons p ps ih =>
    obtain ⟨hp,hps⟩ := List.forall_mem_cons.mp h
    have hdelim : Splits BACKSLASH (unit ';') 1 [SEMICOLON] := splits_delim (by decide)
    have hall := (hdelim.append (splits_param hp)).append (ih hps)
    rw [List.flatMap_cons,List.length_cons,List.map_cons,List.sum_cons]
    have hn : 1 + (p.values.map extra).sum + (ps.length + (ps.map fun p => (p.values.map extra).sum).sum) =
        ps.length + 1 + ((p.values.map extra).sum + (ps.map fun p => (p.values.map extra).sum).sum) := by omega
    rw [← hn]
    exact hall

theorem length_segments (h : line.Valid) : (splitUnescaped line.head (unit ';')).length =
    line.params.length + (line.params.map fun p => (p.values.map extra).sum).sum + 1 := by
  have hall := (inOne_fullName h).splits.append (splits_params h.params) [] []
  rw [List.append_nil,Nat.zero_add] at hall
  exact hall

/-- The first segment is the name. -/
theorem segments_head (h : InOne s) : ∃ tail, splitUnescaped (s ++ ps.flatMap fun p => SEMICOLON :: p.render) (unit ';') = s :: tail := by
  cases ps with
  | nil => exact ⟨[],by rw [List.flatMap_nil,List.append_nil]; exact h.parts []⟩
  | cons p ps => exact ⟨_,by rw [List.flatMap_cons,List.cons_append]; exact h.ended (by decide) [] _⟩

theorem segments_eq (h : InOne s) (hps : ∀ p ∈ ps, InOne p.render) :
    splitUnescaped (s ++ ps.flatMap fun p => SEMICOLON :: p.render) (unit ';') = s :: ps.map Parameter.render := by
  induction ps generalizing s with
  | nil =>
    rw [List.flatMap_nil,List.append_nil]
    exact h.parts []
  | cons p ps ih =>
    obtain ⟨hp,hps⟩ := List.forall_mem_cons.mp hps
    rw [List.flatMap_cons,List.cons_append,List.map_cons,← ih hp hps]
    exact h.ended (by decide) [] _

end Segments
section Maps
variable {casing : CaseMapping} {m : List (JsString × List JsString)} {ps : List Parameter} {segs : List JsString} {d : CodeUnit}

/-- The map of parameters that are added one after the other. -/
def paramMap (casing : CaseMapping) (m : List (JsString × List JsString)) (ps : List Parameter) : List (JsString × List JsString) :=
  ps.foldl (fun m p => pushParam m (casing.toUpperCase p.name) (p.values.map ParamValue.text)) m

theorem paramMap_nodup (casing : CaseMapping) (h : (m.map Prod.fst).Nodup) (ps : List Parameter) :
    ((paramMap casing m ps).map Prod.fst).Nodup := by
  induction ps generalizing m with
  | nil => exact h
  | cons p ps ih => exact ih (nodup_pushParam h _ _)

theorem paramMap_weight (casing : CaseMapping) (h : (m.map Prod.fst).Nodup) (ps : List Parameter) :
    weight d (paramMap casing m ps) = weight d m + (ps.map fun p => countIn d p.values).sum := by
  induction ps generalizing m with
  | nil => rfl
  | cons p ps ih =>
    have hcount : ((p.values.map ParamValue.text).map (List.count d)).sum = countIn d p.values := by
      rw [List.map_map]
      rfl
    rw [List.map_cons,List.sum_cons,← Nat.add_assoc,← hcount,← weight_pushParam h]
    exact ih (nodup_pushParam h _ _)

theorem valuesOf_cons (p : Parameter) (ps : List Parameter) (key : JsString) : valuesOf casing (p :: ps) key =
    if casing.toUpperCase p.name = key then some (p.values.map ParamValue.text ++ (valuesOf casing ps key).getD [])
    else valuesOf casing ps key := by
  rw [valuesOf,valuesOf]
  by_cases hkey : casing.toUpperCase p.name = key
  · rw [List.filter_cons_of_pos (by simpa using hkey),if_pos hkey]
    cases ps.filter fun p => casing.toUpperCase p.name = key with
    | nil => simp
    | cons q qs => simp
  · rw [List.filter_cons_of_neg (by simpa using hkey),if_neg hkey]

theorem paramMap_lookup (m : List (JsString × List JsString)) (ps : List Parameter) (key : JsString) : (paramMap casing m ps).lookup key =
    match valuesOf casing ps key with
    | none => m.lookup key
    | some values => some ((m.lookup key).getD [] ++ values) := by
  induction ps generalizing m with
  | nil => rfl
  | cons p ps ih =>
    have hnext := ih (pushParam m (casing.toUpperCase p.name) (p.values.map ParamValue.text))
    rw [lookup_pushParam] at hnext
    rw [valuesOf_cons]
    refine (hnext : (paramMap casing m (p :: ps)).lookup key = _).trans ?_
    by_cases hkey : casing.toUpperCase p.name = key
    · rw [if_pos hkey.symm,if_pos hkey,hkey]
      cases valuesOf casing ps key with
      | none => simp
      | some values => simp
    · rw [if_neg (Ne.symm hkey),if_neg hkey]

theorem addSegment_nodup (h : (m.map Prod.fst).Nodup) (seg : JsString) : ((addSegment casing m seg).map Prod.fst).Nodup := by
  unfold addSegment
  split
  · exact nodup_pushParam h _ _
  · exact nodup_pushParam h _ _

theorem count_stripQuotes (hd : d ≠ QUOTE) (s : JsString) : (stripQuotes s).count d = s.count d := by
  have hother : (d == QUOTE) = false := beq_eq_false_iff_ne.mpr hd
  exact List.count_filter (congrArg Bool.not hother)

theorem count_splitOn (hd : d ≠ COMMA) (s : JsString) : ((s.splitOn COMMA).map (List.count d)).sum = s.count d := by
  have hjoined : ([COMMA].intercalate (s.splitOn COMMA)).count d = ((s.splitOn COMMA).map (List.count d)).sum := by
    induction s.splitOn COMMA with
    | nil => rfl
    | cons part parts ih =>
      cases parts with
      | nil => simp
      | cons next parts =>
        have hcomma : [COMMA].count d = 0 := List.count_eq_zero.mpr (by simpa using hd)
        rw [List.intercalate_cons_cons,List.count_append,List.count_append,ih,hcomma]
        rfl
  rw [← hjoined,List.intercalate_splitOn]

theorem addSegment_weight (casing : CaseMapping) (h : (m.map Prod.fst).Nodup) (seg : JsString) :
    weight SEMICOLON (addSegment casing m seg) ≤ weight SEMICOLON m + seg.count SEMICOLON := by
  unfold addSegment
  split
  · rw [weight_pushParam h,List.map_singleton,List.sum_singleton,count_stripQuotes (by decide)]
  · rename_i key raw hcut
    have hmap : (((raw.splitOn (unit ',')).map stripQuotes).map (List.count SEMICOLON)).sum = raw.count SEMICOLON := by
      rw [List.map_map,← count_splitOn (by decide : SEMICOLON ≠ COMMA) raw]
      exact congrArg List.sum (List.map_congr_left fun part _ => count_stripQuotes (by decide) part)
    rw [weight_pushParam h,hmap,eq_of_cut hcut,List.count_append,List.count_cons_of_ne (by decide)]
    omega

theorem addSegments_weight (casing : CaseMapping) (h : (m.map Prod.fst).Nodup) (segs : List JsString) :
    ((segs.foldl (addSegment casing) m).map Prod.fst).Nodup ∧
      weight SEMICOLON (segs.foldl (addSegment casing) m) ≤ weight SEMICOLON m + (segs.map (List.count SEMICOLON)).sum := by
  induction segs generalizing m with
  | nil => exact ⟨h,le_rfl⟩
  | cons seg segs ih =>
    obtain ⟨hnodup,hweight⟩ := ih (addSegment_nodup h seg)
    have hseg := addSegment_weight casing h seg
    refine ⟨hnodup,hweight.trans ?_⟩
    rw [List.map_cons,List.sum_cons]
    omega

end Maps
section Exactness
variable {casing : CaseMapping} {line : ContentLine} {p : Parameter} {ps : List Parameter}
  {m : List (JsString × List JsString)} {prop : RawProperty}

theorem paramMap_values (ps : List Parameter) (key : JsString) : (paramMap casing [] ps).lookup key = valuesOf casing ps key := by
  rw [paramMap_lookup]
  cases valuesOf casing ps key with
  | none => rfl
  | some values => rfl

theorem addSegment_param (h : p.Valid) (m : List (JsString × List JsString)) : addSegment casing m p.render =
    pushParam m (casing.toUpperCase p.name) (((renderedList p.values).splitOn (unit ',')).map stripQuotes) := by
  have hcut : cut (unit '=') p.render = some (p.name,renderedList p.values) := cut_append (h.name.notMem (by decide))
  rw [addSegment,hcut]

theorem comma_notMem_render {v : ParamValue} (hv : v.Valid) (h : COMMA ∉ v.text) : COMMA ∉ v.render := by
  cases v with
  | plain text => exact h
  | quoted text =>
    have htext : COMMA ∉ text := h
    simp [ParamValue.render,htext,show COMMA ≠ QUOTE by decide]

theorem splitOn_values (h : p.Valid) (hcomma : ∀ v ∈ p.values, COMMA ∉ v.text) :
    ((renderedList p.values).splitOn (unit ',')).map stripQuotes = p.values.map ParamValue.text := by
  have hparts : (renderedList p.values).splitOn (unit ',') = p.values.map ParamValue.render := by
    refine List.splitOn_intercalate _ ?_ (by simpa using h.values)
    intro part hpart
    obtain ⟨v,hv,rfl⟩ := List.mem_map.mp hpart
    exact comma_notMem_render (h.each v hv) (hcomma v hv)
  rw [hparts,List.map_map]
  exact List.map_congr_left fun v hv => ParamValue.unquoted (h.each v hv)

theorem addSegments_params (h : ∀ p ∈ ps, p.Valid) (hcomma : ∀ p ∈ ps, ∀ v ∈ p.values, COMMA ∉ v.text) :
    (ps.map Parameter.render).foldl (addSegment casing) m = paramMap casing m ps := by
  induction ps generalizing m with
  | nil => rfl
  | cons p ps ih =>
    obtain ⟨hp,hps⟩ := List.forall_mem_cons.mp h
    obtain ⟨hfirst,hrest⟩ := List.forall_mem_cons.mp hcomma
    rw [List.map_cons,List.foldl_cons,addSegment_param hp,splitOn_values hp hfirst]
    exact ih hps hrest

theorem commas_split (casing : CaseMapping) (h : ∀ p ∈ ps, p.Valid) (hm : (m.map Prod.fst).Nodup) :
    (((ps.map Parameter.render).foldl (addSegment casing) m).map Prod.fst).Nodup ∧
      weight COMMA ((ps.map Parameter.render).foldl (addSegment casing) m) = weight COMMA m := by
  induction ps generalizing m with
  | nil => exact ⟨hm,rfl⟩
  | cons p ps ih =>
    obtain ⟨hp,hps⟩ := List.forall_mem_cons.mp h
    obtain ⟨hnodup,hweight⟩ := ih hps (addSegment_nodup hm p.render)
    have hzero : ((((renderedList p.values).splitOn (unit ',')).map stripQuotes).map (List.count COMMA)).sum = 0 := by
      refine List.sum_eq_zero_iff_forall_eq_nat.mpr fun n hn => ?_
      obtain ⟨part,hpart,rfl⟩ := List.mem_map.mp hn
      obtain ⟨piece,hpiece,rfl⟩ := List.mem_map.mp hpart
      rw [count_stripQuotes (by decide)]
      exact List.count_eq_zero.mpr (notMem_of_mem_splitOn hpiece)
    refine ⟨hnodup,?_⟩
    rw [List.map_cons,List.foldl_cons,hweight,addSegment_param hp,weight_pushParam hm,hzero,Nat.add_zero]

theorem parseProperty_render (casing : CaseMapping) (h : line.Valid) :
    ∃ tail, splitUnescaped line.head (unit ';') = line.fullName :: tail ∧
    parseProperty casing line.render = some ⟨casing.toUpperCase line.fullName,tail.foldl (addSegment casing) [],line.value⟩ := by
  obtain ⟨tail,hhead⟩ : ∃ tail, splitUnescaped line.head (unit ';') = line.fullName :: tail := segments_head (inOne_fullName h)
  refine ⟨tail,hhead,?_⟩
  rw [parseProperty,cutUnquoted_line h]
  dsimp only
  rw [hhead]
  rfl

theorem upper_fullName (h : line.Valid) : casing.toUpperCase line.fullName = casing.toUpperCase line.name ↔ line.group = none := by
  cases hgroup : line.group with
  | none => simp [ContentLine.fullName,hgroup]
  | some g =>
    have hg := h.group g hgroup
    have hascii : ∀ c ∈ g ++ DOT :: line.name, c < 128 := by
      intro c hc
      rcases List.mem_append.mp hc with hc | hc
      · exact hg.ascii c hc
      · rcases List.mem_cons.mp hc with rfl | hc
        · decide
        · exact h.name.ascii c hc
    have hfull : line.fullName = g ++ DOT :: line.name := by rw [ContentLine.fullName,hgroup]
    rw [hfull,casing.upper_ascii _ hascii,casing.upper_ascii _ h.name.ascii]
    refine iff_of_false (fun he => ?_) (by simp)
    have hlength := congrArg List.length he
    rw [List.length_map,List.length_map,List.length_append,List.length_cons] at hlength
    omega

theorem reads_iff (h : line.Valid) : ReadsLine casing line ↔ Readable line := by
  obtain ⟨tail,hsegments,hparse⟩ := parseProperty_render casing h
  have hlengths := length_segments h
  constructor
  · rintro ⟨prop,hprop,hname,hparams,-⟩
    obtain rfl := Option.some.inj (hparse.symm.trans hprop)
    refine ⟨(upper_fullName h).mp hname,?_⟩
    have hlookup (key : JsString) : (tail.foldl (addSegment casing) []).lookup key = (paramMap casing [] line.params).lookup key :=
      (hparams key).trans (paramMap_values line.params key).symm
    have hnodup := paramMap_nodup casing nodup_empty line.params
    obtain ⟨htail,hweight⟩ := addSegments_weight casing nodup_empty tail
    -- The semicolons: as many are lost as there are parts too many.
    have hextra : (line.params.map fun p => (p.values.map extra).sum).sum = 0 := by
      have hsame : weight SEMICOLON (tail.foldl (addSegment casing) []) = _ := weight_congr htail hnodup hlookup
      have hdelim : SEMICOLON ≠ BACKSLASH := by decide
      have hcount := splitUnescapedFrom_count hdelim [] line.head
      have hhead : line.head.count SEMICOLON = line.params.length + (line.params.map fun p => countIn SEMICOLON p.values).sum := by
        rw [ContentLine.head,List.count_append,List.count_eq_zero.mpr (h.fullName_notMem (by decide) (by decide)),
          count_params h.params,Nat.zero_add]
      rw [paramMap_weight casing nodup_empty] at hsame
      rw [hhead,show splitUnescapedFrom BACKSLASH SEMICOLON [] line.head = line.fullName :: tail from hsegments,
        List.map_cons,List.sum_cons,
        List.count_eq_zero.mpr (h.fullName_notMem (by decide) (by decide))] at hcount
      rw [hsegments] at hlengths
      simp only [List.count_nil,List.length_cons] at hcount hlengths
      omega
    have hzero : ∀ p ∈ line.params, ∀ v ∈ p.values, extra v = 0 := by
      intro p hp v hv
      have hvalues : (p.values.map extra).sum = 0 := List.sum_eq_zero_iff_forall_eq_nat.mp hextra _ (List.mem_map.mpr ⟨p,hp,rfl⟩)
      exact List.sum_eq_zero_iff_forall_eq_nat.mp hvalues _ (List.mem_map_of_mem hv)
    have hall := segments_eq (inOne_fullName h) fun p hp => inOne_param (h.params p hp) (hzero p hp)
    have htailEq : tail = line.params.map Parameter.render := (List.cons.inj (hsegments.symm.trans hall)).2
    have hcommas : (line.params.map fun p => countIn COMMA p.values).sum = 0 := by
      obtain ⟨hkeys,hw⟩ := commas_split casing h.params nodup_empty
      rw [← htailEq] at hkeys hw
      have hsame := weight_congr (d := COMMA) hkeys hnodup hlookup
      rw [paramMap_weight casing nodup_empty,hw] at hsame
      exact (Nat.zero_add _).symm.trans hsame.symm
    intro p hp v hv
    have hvalues : countIn COMMA p.values = 0 := List.sum_eq_zero_iff_forall_eq_nat.mp hcommas _ (List.mem_map_of_mem hp)
    have hcomma : v.text.count COMMA = 0 := List.sum_eq_zero_iff_forall_eq_nat.mp hvalues _ (List.mem_map_of_mem hv)
    refine unsplit_iff.mpr ⟨hzero p hp v hv,fun text hquoted => ?_⟩
    rw [hquoted] at hcomma
    exact List.count_eq_zero.mp hcomma
  · rintro ⟨hgroup,hunsplit⟩
    have hname : line.fullName = line.name := by rw [ContentLine.fullName,hgroup]
    have hall := segments_eq (inOne_fullName h) fun p hp => inOne_param (h.params p hp) fun v hv => (unsplit_iff.mp (hunsplit p hp v hv)).1
    have htail : tail = line.params.map Parameter.render := (List.cons.inj (hsegments.symm.trans hall)).2
    refine ⟨_,hparse,congrArg casing.toUpperCase hname,fun key => ?_,rfl⟩
    have hcomma : ∀ p ∈ line.params, ∀ v ∈ p.values, COMMA ∉ v.text := by
      intro p hp v hv
      have hvalid := (h.params p hp).each v hv
      have hunsplit := hunsplit p hp v hv
      cases v with
      | plain text => exact fun hm => absurd (hvalid _ hm) (by decide)
      | quoted text => exact hunsplit.2
    rw [htail,addSegments_params h.params hcomma]
    exact paramMap_values line.params key

end Exactness
end JustMail.Contacts
