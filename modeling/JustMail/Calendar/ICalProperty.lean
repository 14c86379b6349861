import JustMail.Calendar.ICal
import JustMail.Foundation.ContentLines

/-! What `parseProperty` of `calendar/ical.ts` makes of a content line of the grammar. -/
namespace JustMail.Calendar
open Foundation Foundation.ContentLine Dav.ContentLine

section Grammar
variable (casing : CaseMapping)

/-- The raw list of a parameter is one that the line gives. -/
def Gives (params : List Parameter) (key raw : JsString) : Prop := ∃ p ∈ params, casing.toUpperCase p.name = key ∧ rawList p.values = raw

/-- A line is read as the grammar has it. -/
structure ParsedAs (line : ContentLine) (prop : RawProperty) : Prop where
  name : prop.name = casing.toUpperCase line.name
  params : ∀ key raw, prop.params.lookup key = some raw ↔ Gives casing line.params key raw
  value : prop.value = line.value

def ReadsLine (line : ContentLine) : Prop := ∃ prop, parseProperty casing line.render = some prop ∧ ParsedAs casing line prop

/-- In quotes neither a colon nor a semicolon stands, and a parameter has one raw list. -/
structure Readable (line : ContentLine) : Prop where
  colon : ∀ p ∈ line.params, ∀ v ∈ p.values, ContentLine.COLON ∉ v.text
  semicolon : ∀ p ∈ line.params, ∀ v ∈ p.values, SEMICOLON ∉ v.text
  agree : ∀ p ∈ line.params, ∀ q ∈ line.params, casing.toUpperCase p.name = casing.toUpperCase q.name → rawList p.values = rawList q.values

end Grammar

section Units
variable {line : ContentLine} {p : Parameter} {ps : List Parameter} {vs : List ParamValue} {d : CodeUnit}

theorem mem_rawList (hcomma : d ≠ COMMA) : d ∈ rawList vs ↔ ∃ v ∈ vs, d ∈ v.text := by
  induction vs with
  | nil => simp [rawList]
  | cons v vs ih =>
    cases vs with
    | nil => simp [rawList]
    | cons w ws =>
      rw [rawList_cons_cons,List.mem_append,List.mem_cons,ih]
      simp [hcomma]

theorem mem_renderedList (hcomma : d ≠ COMMA) (hquote : d ≠ QUOTE) : d ∈ renderedList vs ↔ ∃ v ∈ vs, d ∈ v.text := by
  have hvalue (v : ParamValue) : d ∈ v.render ↔ d ∈ v.text := by
    cases v with
    | plain text => rfl
    | quoted text => simp [ParamValue.render,ParamValue.text,hquote]
  induction vs with
  | nil => simp [renderedList]
  | cons v vs ih =>
    cases vs with
    | nil => simp [renderedList,hvalue]
    | cons w ws =>
      rw [renderedList_cons_cons,List.mem_append,hvalue,List.mem_cons]
      simp [hcomma,ih]

theorem mem_render (h : p.Valid) (hunit : isNameUnit d = false) (hcomma : d ≠ COMMA) (hquote : d ≠ QUOTE) (hequals : d ≠ EQUALS) :
    d ∈ p.render ↔ ∃ v ∈ p.values, d ∈ v.text := by
  rw [Parameter.render_eq,List.mem_append,List.mem_cons,mem_renderedList hcomma hquote]
  simp [hequals,h.name.notMem hunit]

theorem colon_mem_head (h : line.Valid) : ContentLine.COLON ∈ line.head ↔
    ∃ p ∈ line.params, ∃ v ∈ p.values, ContentLine.COLON ∈ v.text := by
  have hname : ContentLine.COLON ∉ line.fullName := h.fullName_notMem (by decide) (by decide)
  rw [ContentLine.head,List.mem_append,or_iff_right hname,List.mem_flatMap]
  refine exists_congr fun p => and_congr_right fun hp => ?_
  rw [List.mem_cons,mem_render (h.params p hp) (by decide) (by decide) (by decide) (by decide)]
  exact or_iff_right (by decide)

/-- The search for the colon ends in the first one. -/
theorem cut_line (h : ContentLine.COLON ∉ line.head) : cut (unit ':') line.render = some (line.head,line.value) := cut_append h

theorem cut_early (h : ContentLine.COLON ∈ line.head) :
    ∃ before after, cut (unit ':') line.render = some (before,after) ∧ line.value.length < after.length := by
  obtain ⟨before,after,hhead,hbefore⟩ := List.eq_append_cons_of_mem h
  refine ⟨before,after ++ ContentLine.COLON :: line.value,?_,?_⟩
  · rw [ContentLine.render,hhead,List.append_assoc]
    exact cut_append hbefore
  · rw [List.length_append,List.length_cons]
    omega

theorem head_eq (line : ContentLine) : line.head = [SEMICOLON].intercalate (line.fullName :: line.params.map Parameter.render) := by
  have hall (s : JsString) (ps : List Parameter) : s ++ ps.flatMap (fun p => SEMICOLON :: p.render) =
      [SEMICOLON].intercalate (s :: ps.map Parameter.render) := by
    induction ps generalizing s with
    | nil => simp
    | cons p ps ih =>
      rw [List.flatMap_cons,List.cons_append,ih,List.map_cons,List.intercalate_cons_cons,List.append_assoc]
      rfl
  exact hall line.fullName line.params

theorem segments_eq (h : line.Valid) (hsemi : ∀ p ∈ line.params, ∀ v ∈ p.values, SEMICOLON ∉ v.text) :
    line.head.splitOn (unit ';') = line.fullName :: line.params.map Parameter.render := by
  rw [head_eq]
  refine List.splitOn_intercalate _ ?_ (List.cons_ne_nil _ _)
  intro part hpart
  rcases List.mem_cons.mp hpart with rfl | hpart
  · exact h.fullName_notMem (by decide) (by decide)
  · obtain ⟨p,hp,rfl⟩ := List.mem_map.mp hpart
    rw [mem_render (h.params p hp) (by decide) (by decide) (by decide) (by decide)]
    rintro ⟨v,hv,hm⟩
    exact hsemi p hp v hv hm

end Units
section Exactness
variable {casing : CaseMapping} {line : ContentLine} {p : Parameter} {ps : List Parameter} {m : List (JsString × JsString)}
  {segs : List JsString} {key raw : JsString}

theorem addSegment_param (h : p.Valid) (m : List (JsString × JsString)) :
    addSegment casing m p.render = (casing.toUpperCase p.name,rawList p.values) :: m := by
  have hcut : cut (unit '=') p.render = some (p.name,renderedList p.values) := cut_append (h.name.notMem (by decide))
  rw [addSegment,hcut,← renderedList_unquoted h.each]
  rfl

theorem addSegments_params (h : ∀ p ∈ ps, p.Valid) (m : List (JsString × JsString)) :
    (ps.map Parameter.render).foldl (addSegment casing) m =
    (ps.map fun p => (casing.toUpperCase p.name,rawList p.values)).reverse ++ m := by
  induction ps generalizing m with
  | nil => rfl
  | cons p ps ih =>
    obtain ⟨hp,hps⟩ := List.forall_mem_cons.mp h
    rw [List.map_cons,List.foldl_cons,addSegment_param hp,ih hps,List.map_cons,List.reverse_cons,List.append_assoc]
    rfl

theorem lookup_iff_mem (h : ∀ e ∈ m, ∀ f ∈ m, e.1 = f.1 → e.2 = f.2) : m.lookup key = some raw ↔ (key,raw) ∈ m := by
  induction m with
  | nil => simp
  | cons e m ih =>
    obtain ⟨hfirst,hrest⟩ := List.forall_mem_cons.mp h
    rw [List.lookup_cons]
    by_cases hkey : key = e.1
    · have hvalue : e.2 = raw ↔ (key,raw) ∈ e :: m := by
        constructor
        · rintro rfl
          rw [hkey]
          exact List.mem_cons_self
        · exact fun hm => hfirst _ hm hkey.symm
      rw [← hvalue,hkey,beq_self_eq_true]
      exact Option.some_inj
    · rw [beq_eq_false_iff_ne.mpr hkey,ih fun e he f hf => hrest e he f (List.mem_cons_of_mem _ hf),List.mem_cons]
      exact (or_iff_right fun he => hkey (congrArg Prod.fst he)).symm

theorem addSegments_semicolon (hsegs : ∀ seg ∈ segs, SEMICOLON ∉ seg) (hm : ∀ e ∈ m, SEMICOLON ∉ e.2) :
    ∀ e ∈ segs.foldl (addSegment casing) m, SEMICOLON ∉ e.2 := by
  induction segs generalizing m with
  | nil => exact hm
  | cons seg segs ih =>
    obtain ⟨hseg,hsegs⟩ := List.forall_mem_cons.mp hsegs
    refine ih hsegs fun e he => ?_
    unfold addSegment at he
    split at he
    · exact hm e he
    · rename_i k value hcut
      rcases List.mem_cons.mp he with rfl | he
      · have hvalue : SEMICOLON ∉ value :=
          fun hmem => hseg (by rw [eq_of_cut hcut]; exact List.mem_append_right _ (List.mem_cons_of_mem _ hmem))
        exact fun hmem => hvalue (List.mem_of_mem_filter hmem)
      · exact hm e he

theorem reads_iff (h : line.Valid) (hgroup : line.group = none) : ReadsLine casing line ↔ Readable casing line := by
  have hname : line.fullName = line.name := by rw [ContentLine.fullName,hgroup]
  constructor
  · rintro ⟨prop,hprop,-,hparams,hvalue⟩
    have hcolon : ContentLine.COLON ∉ line.head := by
      intro hm
      obtain ⟨before,after,hcut,hlength⟩ := cut_early hm
      rw [parseProperty,hcut] at hprop
      cases hprop
      have hsame : after.length = line.value.length := congrArg List.length hvalue
      omega
    rw [parseProperty,cut_line hcolon] at hprop
    cases hprop
    have hfound {p : Parameter} (hp : p ∈ line.params) :
        ((line.head.splitOn (unit ';')).tail.foldl (addSegment casing) []).lookup (casing.toUpperCase p.name) = some (rawList p.values) :=
      (hparams _ _).mpr ⟨p,hp,rfl,rfl⟩
    refine ⟨fun p hp v hv hm => hcolon ((colon_mem_head h).mpr ⟨p,hp,v,hv,hm⟩),fun p hp v hv hm => ?_,fun p hp q hq hpq => ?_⟩
    · have hparts : ∀ seg ∈ (line.head.splitOn (unit ';')).tail, SEMICOLON ∉ seg :=
        fun seg hseg => notMem_of_mem_splitOn (List.mem_of_mem_tail hseg)
      obtain ⟨before,after,hsplit,-⟩ := List.lookup_eq_some_iff.mp (hfound hp)
      have hnone : ∀ e ∈ (line.head.splitOn (unit ';')).tail.foldl (addSegment casing) [], SEMICOLON ∉ e.2 :=
        addSegments_semicolon hparts (List.forall_mem_nil _)
      rw [hsplit] at hnone
      exact hnone _ (List.mem_append_right _ List.mem_cons_self) ((mem_rawList (by decide)).mpr ⟨v,hv,hm⟩)
    · have hp := hfound hp
      rw [hpq,hfound hq] at hp
      exact (Option.some.inj hp).symm
  · rintro ⟨hcolon,hsemi,hagree⟩
    have hhead : ContentLine.COLON ∉ line.head := fun hm => by
      obtain ⟨p,hp,v,hv,hm⟩ := (colon_mem_head h).mp hm
      exact hcolon p hp v hv hm
    refine ⟨_,by rw [parseProperty,cut_line hhead],?_⟩
    rw [segments_eq h hsemi]
    refine ⟨congrArg casing.toUpperCase hname,fun key raw => ?_,rfl⟩
    rw [List.tail_cons,addSegments_params h.params,List.append_nil,lookup_iff_mem]
    · simp [Gives]
    · intro e he f hf hkey
      obtain ⟨p,hp,rfl⟩ := List.mem_map.mp (List.mem_reverse.mp he)
      obtain ⟨q,hq,rfl⟩ := List.mem_map.mp (List.mem_reverse.mp hf)
      exact hagree p hp q hq hkey

end Exactness
end JustMail.Calendar
