import JustMail.Webmail.HeaderValue

/-! What `headerValue` gives of a block of fields: which value is read, and when it is the
unfolded one. -/
namespace JustMail.Webmail.HeaderValue
open Foundation
open Dav.ContentLine (CR LF SP TAB isBlank Unbroken)

section Reading
variable {s t x tail : JsString}

theorem not_visible_iff : visible s = false ↔ ∀ c ∈ s, isSpace c = true := by
  simp [visible]

theorem visible_append (s t : JsString) : visible (s ++ t) = (visible s || visible t) := List.any_append

theorem trimEnd_eq_nil_iff : trimEnd s = [] ↔ visible s = false := by
  rw [not_visible_iff,trimEnd,List.rdropWhile_eq_nil_iff]

theorem trimStart_of_not_visible (hs : visible s = false) (t : JsString) : trimStart (s ++ t) = trimStart t :=
  List.dropWhile_append_of_pos (not_visible_iff.mp hs)

theorem trimStart_of_visible (hs : visible s = true) (t : JsString) : trimStart (s ++ t) = trimStart s ++ t := by
  have hne : s.dropWhile isSpace ≠ [] := by
    intro hnil
    rw [not_visible_iff.mpr (List.dropWhile_eq_nil_iff.mp hnil)] at hs
    cases hs
  rw [trimStart,List.dropWhile_append,if_neg (by simpa [List.isEmpty_iff] using hne),trimStart]

theorem trimStart_head (s : JsString) : ∀ c ∈ (trimStart s).head?, isSpace c = false := by
  intro c hc
  have hnot := List.head?_dropWhile_not isSpace s
  rw [show s.dropWhile isSpace = trimStart s from rfl,Option.mem_def.mp hc] at hnot
  exact hnot

theorem trim_of_not_visible (hs : visible s = false) (t : JsString) : trim (s ++ t) = trim t := by
  rw [trim,trimStart_of_not_visible hs,trim]

theorem trim_ne_nil {c : CodeUnit} (hc : isSpace c = false) (s : JsString) : trim (c :: s) ≠ [] := by
  have hstart : trimStart (c :: s) = c :: s := List.dropWhile_cons_of_neg (by simp [hc])
  rw [trim,hstart,ne_eq,trimEnd_eq_nil_iff]
  simp [visible,hc]

/-- White space in front becomes white space in front. -/
theorem replaceFolds_space (hx : ∀ c ∈ x, isSpace c = true) (hs : ∀ c ∈ s.head?, isSpace c = false) (inFold : Bool) :
    ∃ y, (∀ c ∈ y, isSpace c = true) ∧ replaceFolds inFold (x ++ s) = y ++ replaceFolds false s := by
  induction x generalizing inFold with
  | nil =>
    refine ⟨[],by simp,?_⟩
    cases inFold with
    | false => rfl
    | true =>
      have hdrop : s.dropWhile isBlank = s := by
        cases s with
        | nil => rfl
        | cons c s =>
          refine List.dropWhile_cons_of_neg fun hc => ?_
          have hspace := hs c rfl
          rw [isSpace_of_isBlank hc] at hspace
          cases hspace
      rw [List.nil_append,replaceFolds_blanks,hdrop,List.nil_append]
  | cons c x ih =>
    have hrest (inFold : Bool) := ih (fun d hd => hx d (List.mem_cons_of_mem c hd)) inFold
    rw [List.cons_append,replaceFolds]
    split
    · exact hrest true
    · split
      · exact hrest false
      · split
        · obtain ⟨y,hy,heq⟩ := hrest true
          refine ⟨unit ' ' :: y,?_,by rw [heq,List.cons_append]⟩
          intro d hd
          rcases List.mem_cons.mp hd with rfl | hd
          · decide
          · exact hy d hd
        · obtain ⟨y,hy,heq⟩ := hrest false
          refine ⟨c :: y,?_,by rw [heq,List.cons_append]⟩
          intro d hd
          rcases List.mem_cons.mp hd with rfl | hd
          · exact hx d List.mem_cons_self
          · exact hy d hd

/-- Folds are replaced behind white space as they are in front of it. -/
theorem trim_replaceFolds (s : JsString) : trim (replaceFolds false (trimStart s)) = trim (replaceFolds false s) := by
  obtain ⟨y,hy,heq⟩ := replaceFolds_space (x := s.takeWhile isSpace) (fun c hc => List.mem_takeWhile_imp hc) (trimStart_head s) false
  have hs : s.takeWhile isSpace ++ trimStart s = s := List.takeWhile_append_dropWhile
  rw [hs] at heq
  rw [heq,trim_of_not_visible (not_visible_iff.mpr hy)]

theorem visible_lineEnd (e : LineEnd) : visible e.text = false := not_visible_iff.mpr e.blank

theorem Fold.visible_blanks (f : Fold) : visible f.blanks = false :=
  not_visible_iff.mpr fun c hc => isSpace_of_isBlank (f.blanks_blank c hc)

theorem visible_folds {g : Fold → JsString} (hg : ∀ f, visible (g f) = visible f.text) (folds : List Fold) :
    visible (folds.flatMap g) = folds.any fun fold => visible fold.text := by
  induction folds with
  | nil => rfl
  | cons f folds ih => rw [List.flatMap_cons,visible_append,ih,hg,List.any_cons]

theorem visible_body (f : Field) : visible f.body = f.isVisible := by
  rw [Field.body,visible_append,visible_folds,Field.isVisible]
  intro fold
  rw [Fold.render,visible_append,visible_append,visible_lineEnd,fold.visible_blanks]
  rfl

theorem visible_unfolded (f : Field) : visible f.unfolded = f.isVisible := by
  rw [Field.unfolded,visible_append,visible_folds,Field.isVisible]
  intro fold
  change visible ([unit ' '] ++ fold.text) = _
  rw [visible_append,show visible [unit ' '] = false by decide]
  rfl

theorem visible_joined (f : Field) : visible f.joined = f.isVisible := by
  rw [Field.joined,visible_append,visible_folds,Field.isVisible]
  intro fold
  rw [visible_append,fold.visible_blanks]
  rfl

theorem closingText_blank (closing : List LineEnd) : visible (closingText closing) = false := by
  rw [not_visible_iff]
  intro c hc
  obtain ⟨e,-,hc⟩ := List.mem_flatMap.mp hc
  exact e.blank c hc

theorem Field.render_head (f : Field) : ∃ c s, f.render = c :: s ∧ isSpace c = false := by
  cases hname : f.name with
  | nil => exact ⟨unit ':',f.body,by rw [Field.render,hname]; rfl,by decide⟩
  | cons c name => exact ⟨c,name ++ unit ':' :: f.body,by rw [Field.render,hname]; rfl,f.name_space c (by simp [hname])⟩

theorem afterLineEnd_text (e : LineEnd) (s : JsString) : afterLineEnd (e.text ++ s) = some s := by
  cases e with
  | crlf => rfl
  | lf => rfl

/-- A field ends where another one or nothing follows. -/
theorem fieldEnds_behind (closing : List LineEnd) (e : LineEnd) (fs : List Field) : fieldEnds (behind closing e fs) = true := by
  have hends : ∀ (e : LineEnd) (s : JsString), (∀ c ∈ s.head?, isBlank c = false) → fieldEnds (e.text ++ s) = true := by
    intro e s hs
    rw [fieldEnds,afterLineEnd_text,Option.any_some]
    cases hhead : s.head? with
    | none => simp
    | some c => simp [hs c hhead]
  cases fs with
  | nil =>
    cases closing with
    | nil => rfl
    | cons e closing =>
      rw [behind,closingText,List.flatMap_cons]
      apply hends
      cases closing with
      | nil => simp
      | cons e closing => exact e.head _
  | cons f fs =>
    rw [behind]
    apply hends
    obtain ⟨c,s,hrender,hc⟩ := f.render_head
    rw [hrender]
    intro d hd
    obtain rfl : c = d := by simpa using hd
    cases hblank : isBlank c with
    | false => rfl
    | true =>
      rw [isSpace_of_isBlank hblank] at hc
      cases hc

end Reading

section Unfolding
variable {x a b value : JsString}

theorem trimEnd_of_visible (x : JsString) (ha : visible a = true) : trimEnd (x ++ a) = x ++ trimEnd a := by
  apply rdropWhile_append_of_ne_nil
  intro hnil
  rw [trimEnd_eq_nil_iff.mp hnil] at ha
  cases ha

theorem trimEnd_of_not_visible (x : JsString) (ha : visible a = false) : trimEnd (x ++ a) = trimEnd x :=
  rdropWhile_append_of_forall x (not_visible_iff.mp ha)

/-- Texts that end alike end alike behind the same text. -/
theorem trimEnd_cancel (x : JsString) (h : visible a = visible b) : trimEnd (x ++ a) = trimEnd (x ++ b) ↔ trimEnd a = trimEnd b := by
  cases ha : visible a with
  | true => rw [trimEnd_of_visible x ha,trimEnd_of_visible x (h ▸ ha),List.append_cancel_left_eq]
  | false =>
    have hb : visible b = false := h ▸ ha
    rw [trimEnd_of_not_visible x ha,trimEnd_of_not_visible x hb,trimEnd_eq_nil_iff.mpr ha,trimEnd_eq_nil_iff.mpr hb]
    simp

theorem trimEnd_length_le (x : JsString) (h : visible a = visible b) (hle : (trimEnd a).length ≤ (trimEnd b).length) :
    (trimEnd (x ++ a)).length ≤ (trimEnd (x ++ b)).length := by
  cases ha : visible a with
  | true =>
    rw [trimEnd_of_visible x ha,trimEnd_of_visible x (h ▸ ha),List.length_append,List.length_append]
    omega
  | false => rw [trimEnd_of_not_visible x ha,trimEnd_of_not_visible x (h ▸ ha)]

/-- The further lines with their blanks, and with one space each. -/
def strictLines (folds : List Fold) : JsString := folds.flatMap fun fold => fold.blanks ++ fold.text
def spacedLines (folds : List Fold) : JsString := folds.flatMap fun fold => unit ' ' :: fold.text

theorem visible_strictLines (folds : List Fold) : visible (strictLines folds) = folds.any fun fold => visible fold.text := by
  apply visible_folds
  intro fold
  rw [visible_append,fold.visible_blanks,Bool.false_or]

theorem visible_spacedLines (folds : List Fold) : visible (spacedLines folds) = folds.any fun fold => visible fold.text := by
  apply visible_folds
  intro fold
  change visible ([unit ' '] ++ fold.text) = _
  rw [visible_append,show visible [unit ' '] = false by decide,Bool.false_or]

/-- One space for the blanks of a line never makes the text longer, and keeps it only
where there is one space. -/
theorem trimEnd_lines (folds : List Fold) : (trimEnd (spacedLines folds)).length ≤ (trimEnd (strictLines folds)).length ∧
    (trimEnd (strictLines folds) = trimEnd (spacedLines folds) ↔ Tight folds) := by
  induction folds with
  | nil => exact ⟨le_rfl,iff_of_true rfl trivial⟩
  | cons f fs ih =>
    obtain ⟨hle,hiff⟩ := ih
    have hvisible : visible (spacedLines fs) = visible (strictLines fs) := by rw [visible_spacedLines,visible_strictLines]
    have hstrict : strictLines (f :: fs) = f.blanks ++ (f.text ++ strictLines fs) := by simp [strictLines]
    have hspaced : spacedLines (f :: fs) = [unit ' '] ++ (f.text ++ spacedLines fs) := by simp [spacedLines]
    have hle' := trimEnd_length_le f.text hvisible hle
    have hiff' : trimEnd (f.text ++ strictLines fs) = trimEnd (f.text ++ spacedLines fs) ↔ Tight fs :=
      (trimEnd_cancel f.text hvisible.symm).trans hiff
    have hseen : visible (f.text ++ strictLines fs) = (visible f.text || fs.any fun fold => visible fold.text) := by
      rw [visible_append,visible_strictLines]
    have hseen' : visible (f.text ++ spacedLines fs) = (visible f.text || fs.any fun fold => visible fold.text) := by
      rw [visible_append,visible_spacedLines]
    have hpos : 0 < f.blanks.length := List.length_pos_of_ne_nil f.blanks_ne
    rw [hstrict,hspaced,Tight]
    cases hsee : (visible f.text || fs.any fun fold => visible fold.text) with
    | true =>
      rw [hsee] at hseen hseen'
      rw [trimEnd_of_visible _ hseen,trimEnd_of_visible _ hseen',List.length_append,List.length_append,List.length_singleton]
      refine ⟨by omega,?_⟩
      constructor
      · intro heq
        have hlength := congrArg List.length heq
        rw [List.length_append,List.length_append,List.length_singleton] at hlength
        obtain ⟨hblanks,hrest⟩ := List.append_inj heq (by rw [List.length_singleton]; omega)
        exact ⟨fun _ => hblanks,hiff'.mp hrest⟩
      · rintro ⟨hblanks,hrest⟩
        rw [hblanks rfl,hiff'.mpr hrest]
        rfl
    | false =>
      rw [hsee] at hseen hseen'
      rw [trimEnd_of_not_visible _ hseen,trimEnd_of_not_visible _ hseen',trimEnd_eq_nil_iff.mpr f.visible_blanks,
        trimEnd_eq_nil_iff.mpr (by decide : visible [unit ' '] = false)]
      refine ⟨le_rfl,iff_of_true rfl ⟨fun h => (Bool.false_ne_true h).elim,?_⟩⟩
      rw [← hiff',trimEnd_eq_nil_iff.mpr hseen,trimEnd_eq_nil_iff.mpr hseen']

theorem trim_lines (folds : List Fold) (value : JsString) :
    trim (value ++ strictLines folds) = trim (value ++ spacedLines folds) ↔ SpaceFolded value folds := by
  induction folds generalizing value with
  | nil => exact iff_of_true rfl trivial
  | cons f fs ih =>
    rw [SpaceFolded]
    cases hvalue : visible value with
    | true =>
      have hvisible : visible (strictLines (f :: fs)) = visible (spacedLines (f :: fs)) := by
        rw [visible_spacedLines,visible_strictLines]
      rw [if_pos rfl,trim,trim,trimStart_of_visible hvalue,trimStart_of_visible hvalue,trimEnd_cancel _ hvisible]
      exact (trimEnd_lines (f :: fs)).2
    | false =>
      have hstrict : value ++ strictLines (f :: fs) = (value ++ f.blanks) ++ (f.text ++ strictLines fs) := by simp [strictLines]
      have hspaced : value ++ spacedLines (f :: fs) = (value ++ [unit ' ']) ++ (f.text ++ spacedLines fs) := by simp [spacedLines]
      have hblanks : visible (value ++ f.blanks) = false := by rw [visible_append,hvalue,f.visible_blanks]; rfl
      have hspace : visible (value ++ [unit ' ']) = false := by
        rw [visible_append,hvalue]
        decide
      rw [if_neg (by simp),hstrict,hspaced,trim_of_not_visible hblanks,trim_of_not_visible hspace]
      exact ih f.text

/-- The blanks of the folds are seen unless they are single spaces. -/
theorem trim_joined_iff (f : Field) : trim f.unfolded = trim f.joined ↔ SpaceFolded f.value f.folds :=
  eq_comm.trans (trim_lines f.folds f.value)

end Unfolding

section Result
variable (canonicalize : Canonicalize) {name : JsString} {before after : List Field} {f : Field}

theorem headerValue_eq (hname : IsFieldName name) (raw : JsString) :
    headerValue canonicalize name (some raw) = (execHeader canonicalize name raw).map fun value => trim (replaceFolds false value) := by
  rw [headerValue]
  split
  · rename_i hraw
    have hnone : execHeader canonicalize name (closingText []) = none := execHeader_closing canonicalize hname []
    rw [hraw]
    change none = (execHeader canonicalize name (closingText [])).map _
    rw [hnone]
    rfl
  · rfl

theorem execHeader_block (hname : IsFieldName name) (closing : List LineEnd) (f : Field) (fs : List Field) :
    execHeader canonicalize name (blockText closing (f :: fs)) =
      if f.Named canonicalize name then some (lazyValue (trimStart (f.body ++ behind closing f.lineEnd fs)))
      else execHeader canonicalize name (blockText closing fs) := by
  rw [blockText,execHeader,valueAt_render canonicalize hname,searchLines_field canonicalize hname,searchLines_behind canonicalize hname]
  split
  · rfl
  · rfl

theorem execHeader_absent (hname : IsFieldName name) (closing : List LineEnd) {fs : List Field}
    (h : ∀ f ∈ fs, ¬ f.Named canonicalize name) : execHeader canonicalize name (blockText closing fs) = none := by
  induction fs with
  | nil => exact execHeader_closing canonicalize hname closing
  | cons f fs ih =>
    rw [execHeader_block canonicalize hname,if_neg (h f List.mem_cons_self)]
    exact ih fun g hg => h g (List.mem_cons_of_mem f hg)

theorem execHeader_first (hname : IsFieldName name) (closing : List LineEnd) (hbefore : ∀ g ∈ before, ¬ g.Named canonicalize name)
    (hf : f.Named canonicalize name) :
    execHeader canonicalize name (blockText closing (before ++ f :: after)) =
      some (lazyValue (trimStart (f.body ++ behind closing f.lineEnd after))) := by
  induction before with
  | nil => rw [List.nil_append,execHeader_block canonicalize hname,if_pos hf]
  | cons g before ih =>
    rw [List.cons_append,execHeader_block canonicalize hname,if_neg (hbefore g List.mem_cons_self)]
    exact ih fun h hh => hbefore h (List.mem_cons_of_mem g hh)

/-- A value with something to see is read to its end. -/
theorem lazyValue_visible (hf : f.isVisible = true) (closing : List LineEnd) :
    lazyValue (trimStart (f.body ++ behind closing f.lineEnd after)) = trimStart f.body := by
  rw [trimStart_of_visible (visible_body f ▸ hf)]
  have hbody := lazyValue_body f (behind closing f.lineEnd after)
  rw [lazyValue_ends (fieldEnds_behind closing f.lineEnd after)] at hbody
  have hsplit : f.body.takeWhile isSpace ++ trimStart f.body = f.body := List.takeWhile_append_dropWhile
  have hparts : lazyValue (f.body.takeWhile isSpace ++ (trimStart f.body ++ behind closing f.lineEnd after)) =
      f.body.takeWhile isSpace ++ trimStart f.body := by
    rw [← List.append_assoc,hsplit,hbody,List.append_nil]
  exact lazyValue_behind hparts

/-- What is read of the first field with the name: its value, nothing where the block ends
behind a blank one, and else no empty text, since the line of the next field is read. -/
theorem headerValue_first (after : List Field) (hname : IsFieldName name) (closing : List LineEnd)
    (hbefore : ∀ g ∈ before, ¬ g.Named canonicalize name)
    (hf : f.Named canonicalize name) :
    ∃ value, headerValue canonicalize name (some (blockText closing (before ++ f :: after))) = some value ∧
      (f.isVisible = true ∨ after = [] → value = trim f.unfolded) ∧ (f.isVisible = false → after ≠ [] → value ≠ []) := by
  rw [headerValue_eq canonicalize hname,execHeader_first canonicalize hname closing hbefore hf,Option.map_some]
  refine ⟨_,rfl,?_,?_⟩
  · intro h
    cases hvisible : f.isVisible with
    | true => rw [lazyValue_visible hvisible,trim_replaceFolds,replaceFolds_body]
    | false =>
      obtain rfl : after = [] := h.resolve_left (by simp [hvisible])
      have hclosing : trimStart (closingText closing) = [] :=
        List.dropWhile_eq_nil_iff.mpr (not_visible_iff.mp (closingText_blank closing))
      rw [trimStart_of_not_visible (visible_body f ▸ hvisible),behind,hclosing]
      have hunfolded : trim (f.unfolded ++ []) = trim [] := trim_of_not_visible (visible_unfolded f ▸ hvisible) []
      rw [List.append_nil] at hunfolded
      rw [hunfolded]
      rfl
  · intro hvisible hafter
    cases after with
    | nil => exact absurd rfl hafter
    | cons g after =>
      obtain ⟨c,rest,hrender,hc⟩ := g.render_head
      have hnot : c ≠ CR ∧ c ≠ LF := by
        constructor
        · rintro rfl
          exact absurd hc (by decide)
        · rintro rfl
          exact absurd hc (by decide)
      rw [trimStart_of_not_visible (visible_body f ▸ hvisible),behind,trimStart_of_not_visible (visible_lineEnd _),
        hrender,List.cons_append]
      have hstart (s : JsString) : trimStart (c :: s) = c :: s := List.dropWhile_cons_of_neg (by simp [hc])
      rw [hstart,lazyValue_plain hnot.1 hnot.2,replaceFolds_plain hnot.1 hnot.2]
      exact trim_ne_nil hc _

/-- Nothing is in the value, and the line of the next field is read. -/
def emptySubject : Field := ⟨js "Subject",[],[],.crlf,by decide,by decide,by decide⟩
def senderField : Field := ⟨js "From",js " x",[],.crlf,by decide,by decide,by decide⟩

theorem headerValue_next_field :
    blockText [] [emptySubject,senderField] = js "Subject:\r\nFrom: x" ∧ emptySubject.Named asciiCanonicalize (js "subject") ∧
    headerValue asciiCanonicalize (js "subject") (some (blockText [] [emptySubject,senderField])) = some (js "From: x") ∧
    headerValue asciiCanonicalize (js "subject") (some (blockText [] [emptySubject,senderField])) ≠ some (trim emptySubject.unfolded) := by
  decide +kernel

/-- No value is read just where no field has the name. The value of the first field with it
is read where it has something to see or is the last one; with the blanks of its folds, as
RFC 5322 unfolds, where besides they are single spaces as far as one can see. -/
theorem headerValue_iff (fields : List Field) (closing : List LineEnd) {name : JsString} (hname : IsFieldName name) :
    (headerValue canonicalize name (some (blockText closing fields)) = none ↔ ∀ f ∈ fields, ¬ f.Named canonicalize name) ∧
    ∀ before f after, fields = before ++ f :: after → (∀ g ∈ before, ¬ g.Named canonicalize name) → f.Named canonicalize name →
      (headerValue canonicalize name (some (blockText closing fields)) = some (trim f.unfolded) ↔
        f.isVisible = true ∨ after = []) ∧
      (headerValue canonicalize name (some (blockText closing fields)) = some (trim f.joined) ↔
        (f.isVisible = true ∨ after = []) ∧ SpaceFolded f.value f.folds) := by
  constructor
  · constructor
    · intro hnone f hf hnamed
      have hsome : (fields.find? fun f => decide (f.Named canonicalize name)).isSome = true :=
        List.find?_isSome.mpr ⟨f,hf,decide_eq_true hnamed⟩
      obtain ⟨g,hfind⟩ := Option.isSome_iff_exists.mp hsome
      obtain ⟨hg,before,after,rfl,hbefore⟩ := List.find?_eq_some_iff_append.mp hfind
      obtain ⟨value,hvalue,-,-⟩ := headerValue_first canonicalize after hname closing
        (fun g hg => by simpa using hbefore g hg) (of_decide_eq_true hg)
      rw [hvalue] at hnone
      cases hnone
    · intro h
      rw [headerValue_eq canonicalize hname,execHeader_absent canonicalize hname closing h]
      rfl
  · rintro before f after rfl hbefore hf
    obtain ⟨value,hvalue,hright,hwrong⟩ := headerValue_first canonicalize after hname closing hbefore hf
    have hinvisible : f.isVisible = false → trim f.unfolded = [] ∧ trim f.joined = [] := by
      intro h
      have hunfolded : trim (f.unfolded ++ []) = trim [] := trim_of_not_visible (visible_unfolded f ▸ h) []
      have hjoined : trim (f.joined ++ []) = trim [] := trim_of_not_visible (visible_joined f ▸ h) []
      rw [List.append_nil] at hunfolded hjoined
      exact ⟨hunfolded,hjoined⟩
    rw [hvalue,Option.some_inj,Option.some_inj]
    have hread : f.isVisible = true ∨ after = [] ∨ (f.isVisible = false ∧ after ≠ []) := by
      cases f.isVisible with
      | true => exact .inl rfl
      | false => exact .inr ((em (after = [])).imp_right fun h => ⟨rfl,h⟩)
    rcases or_assoc.mpr hread with hread | ⟨hvisible,hafter⟩
    · rw [hright hread]
      refine ⟨iff_of_true rfl hread,?_⟩
      rw [trim_joined_iff]
      exact (and_iff_right hread).symm
    · have hne := hwrong hvisible hafter
      have hnot : ¬ (f.isVisible = true ∨ after = []) := by simp [hvisible,hafter]
      rw [(hinvisible hvisible).1,(hinvisible hvisible).2]
      exact ⟨iff_of_false hne hnot,iff_of_false hne fun h => hnot h.1⟩

/-- A folded value, whose second line starts with a tab. -/
def foldedReferences : Field :=
  ⟨js "References",js " <a@x>",[⟨.crlf,[TAB],js "<b@y>",by decide,by decide,by decide,by decide⟩],.crlf,by decide,by decide,by decide⟩

theorem headerValue_iff_sample :
    headerValue asciiCanonicalize (js "references") (some (blockText [.crlf] [foldedReferences,senderField])) =
      some (trim foldedReferences.unfolded) := by
  have hname : IsFieldName (js "references") := ⟨by decide +kernel,by decide +kernel,by decide +kernel⟩
  exact ((headerValue_iff asciiCanonicalize [foldedReferences,senderField] [.crlf] hname).2 [] foldedReferences [senderField] rfl (by simp)
    (by decide +kernel)).1.mpr (.inl (by decide +kernel))

end Result

end JustMail.Webmail.HeaderValue
