import JustMail.Foundation.CodeUnits
import JustMail.Foundation.MimeTree
import JustMail.Foundation.Runs
import JustMail.MailParser.StructureLimits

/-! The check on well-formed mail. On a tree of parts that is written down as RFC 2046 has
it, the stack is the path in the tree, and the two limits are met exactly. -/
namespace JustMail.MailParser
open Foundation
open scoped List

section Delimiters
variable {token rest line text : JsString} {isClose : Bool}

theorem delimiterEnd_cases (h : delimiterEnd rest = some isClose) :
    ∃ padding, padding.all Mime.isBlank = true ∧ rest = (if isClose then js "--" else []) ++ padding := by
  rw [delimiterEnd] at h
  split at h
  · rename_i hclose
    obtain ⟨⟨padding,rfl⟩,hpadding⟩ := hclose
    obtain rfl : true = isClose := Option.some.inj h
    refine ⟨padding,?_,rfl⟩
    exact hpadding
  · split at h
    · rename_i hpadding
      obtain rfl : false = isClose := Option.some.inj h
      exact ⟨rest,hpadding,rfl⟩
    · simp at h

/-- The first group is a part of the line, with the end of the pattern after it. -/
theorem lazyToken_cases {before : JsString} (h : lazyToken before text = some (token,isClose)) :
    ∃ x rest, text = x ++ rest ∧ token = before ++ x ∧ delimiterEnd rest = some isClose := by
  induction text generalizing before with
  | nil => simp [lazyToken] at h
  | cons c s ih =>
    rw [lazyToken] at h
    split at h
    · simp at h
    · split at h
      · rename_i isClose' hend
        obtain ⟨rfl,rfl⟩ : before ++ [c] = token ∧ isClose' = isClose := by simpa using h
        exact ⟨[c],s,rfl,rfl,hend⟩
      · obtain ⟨x,rest,rfl,rfl,hend⟩ := ih h
        exact ⟨c :: x,rest,rfl,by simp,hend⟩

/-- What the pattern takes for a delimiter is one, whatever the boundary. -/
theorem delimits_of_delimiter (h : delimiter line = some (token,isClose)) : Mime.delimits token line ≠ none := by
  rw [delimiter] at h
  split at h
  · rename_i hdashes
    obtain ⟨text,rfl⟩ := hdashes
    have hdrop : (js "--" ++ text).drop 2 = text := rfl
    rw [hdrop] at h
    obtain ⟨x,rest,rfl,rfl,hend⟩ := lazyToken_cases h
    obtain ⟨padding,hpadding,rfl⟩ := delimiterEnd_cases hend
    rw [← List.append_assoc]
    cases isClose with
    | false =>
      change Mime.delimits token (js "--" ++ token ++ padding) ≠ none
      rw [Mime.delimits_padding token hpadding]
      exact Option.some_ne_none _
    | true =>
      change Mime.delimits token (js "--" ++ token ++ (js "--" ++ padding)) ≠ none
      rw [Mime.delimits_close_padding token hpadding]
      exact Option.some_ne_none _
  · simp at h

end Delimiters

section Declarations
variable {s u rest token value after : JsString} {c : CodeUnit}

/-- A match begins at the start of `s` and ends where `rest` begins, before any semicolon. -/
def Consumes (s rest : JsString) : Prop := ∃ used, s = used ++ rest ∧ unit ';' ∉ used

theorem Consumes.cons (h : Consumes s rest) (hc : c ≠ unit ';') : Consumes (c :: s) rest := by
  obtain ⟨used,rfl,hused⟩ := h
  exact ⟨c :: used,rfl,by simp [hc.symm,hused]⟩

/-- Up to where a class of units ends that has no semicolon. -/
theorem Consumes.span {p : CodeUnit → Bool} (h : Consumes (s.dropWhile p) rest) (hp : p (unit ';') = false) : Consumes s rest := by
  obtain ⟨used,heq,hused⟩ := h
  refine ⟨s.takeWhile p ++ used,?_,?_⟩
  · rw [List.append_assoc,← heq,List.takeWhile_append_dropWhile]
  · intro hmem
    rcases List.mem_append.mp hmem with hmem | hmem
    · have hsemicolon := List.mem_takeWhile_imp hmem
      simp [hp] at hsemicolon
    · exact hused hmem

theorem consumes_capture (h : capture s = some (token,rest)) : Consumes s rest := by
  refine Consumes.span (p := isCaptured) ?_ (by decide)
  rw [capture] at h
  split at h
  · simp at h
  · split at h
    · rename_i c after heq
      cases h
      rw [heq]
      split
      · rename_i hc
        exact ⟨[c],rfl,by subst hc; decide⟩
      · exact ⟨[],rfl,List.not_mem_nil⟩
    · rename_i heq
      cases h
      exact ⟨[],heq,List.not_mem_nil⟩

theorem consumes_quotedCapture (h : quotedCapture s = some (token,rest)) : Consumes s rest := by
  cases s with
  | nil => simp [quotedCapture] at h
  | cons c s =>
    rw [quotedCapture] at h
    split at h
    · rename_i hc
      rcases Option.or_eq_some_iff.mp h with h | ⟨-,h⟩
      · exact (consumes_capture h).cons (by subst hc; decide)
      · exact consumes_capture h
    · exact consumes_capture h

theorem consumes_spacedCapture (h : spacedCapture s = some (token,rest)) : Consumes s rest := by
  induction s with
  | nil => simp [spacedCapture] at h
  | cons c s ih =>
    rw [spacedCapture] at h
    split at h
    · rename_i hspace
      rcases Option.or_eq_some_iff.mp h with h | ⟨-,h⟩
      · refine (ih h).cons ?_
        rintro rfl
        exact absurd hspace (by decide)
      · exact consumes_quotedCapture h
    · exact consumes_quotedCapture h

theorem consumes_declaration (h : declaration s = some (token,rest)) : Consumes s rest := by
  rw [declaration] at h
  split at h
  · rename_i hname
    split at h
    · rename_i c blank heq
      split at h
      · rename_i hc
        have hvalue : Consumes (s.drop 8) rest := by
          refine Consumes.span (p := isSpace) ?_ (by decide)
          rw [heq]
          exact (consumes_spacedCapture h).cons (by subst hc; decide)
        obtain ⟨used,hused,hmem⟩ := hvalue
        refine ⟨s.take 8 ++ used,?_,?_⟩
        · rw [List.append_assoc,← hused,List.take_append_drop]
        · intro hin
          rcases List.mem_append.mp hin with hin | hin
          · have hlower : asciiLower (unit ';') ∈ js "boundary" := hname ▸ List.mem_map_of_mem hin
            exact absurd hlower (by decide)
          · exact hmem hin
      · simp at h
    · simp at h
  · simp at h

/-- Nothing of what stands after a semicolon belongs to a match that began before it. -/
theorem Consumes.length_lt (h : Consumes (s ++ unit ';' :: u) rest) : u.length < rest.length := by
  obtain ⟨used,heq,hused⟩ := h
  rcases List.append_eq_append_iff.mp heq with ⟨x,rfl,hx⟩ | ⟨x,rfl,rfl⟩
  · cases x with
    | nil =>
      rw [List.nil_append] at hx
      simp [← hx]
    | cons c x =>
      cases hx
      exact absurd (List.mem_append_right s List.mem_cons_self) hused
  · simp only [List.length_append,List.length_cons]
    omega

theorem declaredFrom_cons (hc : asciiLower c ≠ unit 'b') : declaredFrom 0 (c :: s) = declaredFrom 0 s := by
  have hname : declaration (c :: s) = none := by
    rw [declaration,if_neg]
    intro heq
    exact hc (List.cons.inj heq).1
  rw [declaredFrom,hname]

/-- What is declared after a semicolon is found, whatever stands before it. -/
theorem declaredFrom_semicolon {skip : Nat} (hskip : skip ≤ s.length) (h : token ∈ declaredFrom 0 u) :
    token ∈ declaredFrom skip (s ++ unit ';' :: u) := by
  induction s generalizing skip with
  | nil =>
    obtain rfl : skip = 0 := Nat.le_zero.mp hskip
    rw [List.nil_append,declaredFrom_cons (by decide)]
    exact h
  | cons c s ih =>
    rw [List.cons_append]
    cases skip with
    | succ skip => exact ih (Nat.le_of_succ_le_succ hskip)
    | zero =>
      rw [declaredFrom]
      split
      · rename_i value rest hmatch
        have hlength := (consumes_declaration hmatch).length_lt (s := c :: s)
        refine List.mem_cons_of_mem _ (ih ?_)
        simp only [List.length_append,List.length_cons]
        omega
      · exact ih (Nat.zero_le _)

theorem capture_value (hne : value ≠ []) (hvalue : ∀ c ∈ value, isCaptured c = true)
    (hafter : ∀ c ∈ after.head?, isCaptured c = false) : ∃ rest, capture (value ++ after) = some (value,rest) := by
  rw [capture,(span_run hvalue hafter).1]
  cases value with
  | nil => exact absurd rfl hne
  | cons c value =>
    dsimp only
    split
    · exact ⟨_,rfl⟩
    · exact ⟨_,rfl⟩

theorem spacedCapture_value {b : Mime.PlainBoundary} (hafter : ∀ c ∈ after.head?, isCaptured c = false) (quoted : Bool) :
    ∃ rest, spacedCapture ((if quoted then [unit '"'] ++ b.text ++ [unit '"'] else b.text) ++ after) = some (b.text,rest) := by
  have hcaptured : ∀ c ∈ b.text, isCaptured c = true := by
    intro c hc
    obtain ⟨hoctet,-,-,-,hquote,hsemicolon⟩ := Mime.plain_unit (b.plain c hc)
    simp only [Mime.isLineOctet,Bool.and_eq_true,bne_iff_ne] at hoctet
    simp [isCaptured,hquote,hsemicolon,hoctet.1.2,hoctet.2]
  cases quoted with
  | true =>
    have hcapture : ∃ rest, capture (b.text ++ unit '"' :: after) = some (b.text,rest) :=
      capture_value b.nonempty hcaptured (by simp [isCaptured])
    obtain ⟨rest,hrest⟩ := hcapture
    refine ⟨rest,?_⟩
    have htext : (if true = true then [unit '"'] ++ b.text ++ [unit '"'] else b.text) ++ after =
        unit '"' :: (b.text ++ unit '"' :: after) := by simp
    rw [htext,spacedCapture,if_neg (by decide),quotedCapture,if_pos rfl,hrest,Option.some_or]
  | false =>
    obtain ⟨rest,hrest⟩ := capture_value b.nonempty hcaptured hafter
    refine ⟨rest,?_⟩
    have hplain := b.plain
    rw [if_neg Bool.false_ne_true]
    cases htext : b.text with
    | nil => exact absurd htext b.nonempty
    | cons c text =>
      rw [htext] at hplain hrest
      obtain ⟨-,-,hspace,-,hquote,-⟩ := Mime.plain_unit (hplain c List.mem_cons_self)
      rw [List.cons_append] at hrest ⊢
      rw [spacedCapture,if_neg (by simp [hspace]),quotedCapture,if_neg hquote,hrest]

theorem declaredFrom_boundary {b : Mime.PlainBoundary} (hafter : ∀ c ∈ after.head?, isCaptured c = false) (quoted : Bool) :
    b.text ∈ declaredFrom 0 (js "boundary=" ++ ((if quoted then [unit '"'] ++ b.text ++ [unit '"'] else b.text) ++ after)) := by
  obtain ⟨rest,hrest⟩ := spacedCapture_value (b := b) hafter quoted
  generalize (if quoted then [unit '"'] ++ b.text ++ [unit '"'] else b.text) ++ after = value at hrest ⊢
  have hmatch : declaration (js "boundary=" ++ value) = some (b.text,rest) := hrest
  change b.text ∈ declaredFrom 0 (unit 'b' :: (js "oundary=" ++ value))
  change declaration (unit 'b' :: (js "oundary=" ++ value)) = some (b.text,rest) at hmatch
  rw [declaredFrom,hmatch]
  have htrim : trim b.text = b.text := trim_eq_self_of_forall fun c hc => (Mime.plain_unit (b.plain c hc)).2.2.1
  dsimp only
  rw [htrim]
  exact List.mem_cons_self

/-- The boundaries of a tree are among the declared ones. -/
theorem declared_of_multipart {e : Mime.Entity} {t : Mime.MultipartType} (h : t ∈ e.multiparts) :
    t.boundary.text ∈ declared e.text := by
  obtain ⟨before,after,htext,hafter⟩ := intercalate_neighbours [13,10] ((e.type_lines h).map Mime.Line.text)
    (fun hnil => t.lines_ne_nil (List.map_eq_nil_iff.mp hnil))
  have hend : ∀ c ∈ (t.rest.text ++ after).head?, isCaptured c = false := by
    intro c hc
    cases hrest : t.rest.text with
    | nil =>
      rw [hrest,List.nil_append] at hc
      rcases hafter with rfl | ⟨after,rfl⟩
      · simp at hc
      · obtain rfl : 13 = c := by simpa using hc
        decide
    | cons d rest =>
      obtain rfl : d = c := by simpa [hrest] using hc
      obtain rfl : d = unit ';' := t.rest_head d (by simp [hrest])
      decide
  have hfound := declaredFrom_boundary (b := t.boundary) hend t.quoted
  rw [← t.value_text] at hfound
  have hshape : e.text = (before ++ (js "Content-Type: multipart/" ++ t.subtype.text)) ++ unit ';' ::
      ((if t.folded then [13,10] else []) ++ unit ' ' :: (js "boundary=" ++ (t.value.text ++ (t.rest.text ++ after)))) := by
    have hsemicolon : js ";" = [unit ';'] := rfl
    have hboundary : js " boundary=" = unit ' ' :: js "boundary=" := rfl
    rw [Mime.Entity.text,htext,t.text_lines,hsemicolon,hboundary]
    simp
  rw [declared,hshape]
  refine declaredFrom_semicolon (Nat.zero_le _) ?_
  cases t.folded with
  | true =>
    change t.boundary.text ∈ declaredFrom 0 (13 :: 10 :: unit ' ' :: _)
    rw [declaredFrom_cons (by decide),declaredFrom_cons (by decide),declaredFrom_cons (by decide)]
    exact hfound
  | false =>
    change t.boundary.text ∈ declaredFrom 0 (unit ' ' :: _)
    rw [declaredFrom_cons (by decide)]
    exact hfound

end Declarations

section Reading
variable {boundaries stack : List JsString} {g : GuardState} {p : Nat} {b : Mime.PlainBoundary}

def guardAll (boundaries : List JsString) (g : GuardState) (lines : List Mime.Line) : Except MimeLimitError GuardState :=
  (lines.map Mime.Line.text).foldlM (guardLine boundaries) g

theorem guardAll_append (l l' : List Mime.Line) :
    guardAll boundaries g (l ++ l') = guardAll boundaries g l >>= fun g => guardAll boundaries g l' := by
  rw [guardAll,List.map_append,List.foldlM_append]
  rfl

theorem guardAll_cons (line : Mime.Line) (lines : List Mime.Line) :
    guardAll boundaries g (line :: lines) = guardLine boundaries g line.text >>= fun g => guardAll boundaries g lines := by
  rw [guardAll,List.map_cons,List.foldlM_cons]
  rfl

/-- No line is a delimiter of a declared boundary. -/
def Quiet (boundaries : List JsString) (lines : List Mime.Line) : Prop :=
  ∀ line ∈ lines, ∀ b ∈ boundaries, Mime.delimits b line.text = none

theorem guardAll_quiet {lines : List Mime.Line} (h : Quiet boundaries lines) : guardAll boundaries g lines = .ok g := by
  induction lines with
  | nil => rfl
  | cons line lines ih =>
    have hline : guardLine boundaries g line.text = .ok g := by
      rw [guardLine]
      split
      · rfl
      · rename_i token isClose hdelim
        have hnot : token ∉ boundaries := fun hmem =>
          delimits_of_delimiter hdelim (h line List.mem_cons_self token hmem)
        rw [if_pos (by simp [hnot])]
    rw [guardAll_cons,hline]
    exact ih fun line hline => h line (List.mem_cons_of_mem _ hline)

theorem spelled_plain (h : b.text ∈ boundaries) : Spelled boundaries b.toBoundary.text := by
  refine ⟨h,?_,?_⟩
  · intro c hc
    have hoctet := b.octets c hc
    simp only [Mime.isLineOctet,Bool.and_eq_true,decide_eq_true_eq,bne_iff_ne] at hoctet
    obtain ⟨⟨hsmall,hcr⟩,hlf⟩ := hoctet
    have hseparators : c ≠ 0x2028 ∧ c ≠ 0x2029 := by
      constructor
      · rintro rfl
        exact absurd hsmall (by decide)
      · rintro rfl
        exact absurd hsmall (by decide)
    simp [isLineTerminator,hcr,hlf,hseparators]
  · intro y hy
    have hdash : unit '-' ∈ b.text := by
      change b.text = _ at hy
      rw [hy]
      exact List.mem_append_right y (by decide)
    exact absurd rfl (Mime.plain_unit (b.plain _ hdash)).2.2.2.1

/-- A delimiter opens the multipart, or its stack is already that of the multipart. -/
theorem pushToken_delimiter {token : JsString} {entered : List JsString} (hfresh : token ∉ stack)
    (hentered : entered = stack ∨ entered = token :: stack ∧ stack.length + 1 ≤ MAX_DEPTH) :
    Succeeds (pushToken token entered) (token :: stack) (stack.length + 1 ≤ MAX_DEPTH) := by
  rcases hentered with rfl | ⟨rfl,hdepth⟩
  · have hhead : entered.head? ≠ some token := fun heq => hfresh (List.mem_of_mem_head? heq)
    rw [pushToken,if_neg hhead]
    exact ⟨fun hdepth => if_neg (Nat.not_lt.mpr hdepth),fun hdepth => ⟨.depth,if_pos (Nat.not_le.mp hdepth)⟩⟩
  · rw [pushToken,if_pos (List.head?_cons)]
    exact ⟨fun _ => rfl,fun hnot => absurd hdepth hnot⟩

theorem guardLine_delimiter {entered : List JsString} (hmem : b.text ∈ boundaries) (hfresh : b.text ∉ stack)
    (hentered : entered = stack ∨ entered = b.text :: stack ∧ stack.length + 1 ≤ MAX_DEPTH) :
    Succeeds (guardLine boundaries ⟨entered,p⟩ b.delimiter.text) ⟨b.text :: stack,p + 1⟩
      (stack.length + 1 ≤ MAX_DEPTH ∧ p + 1 ≤ MAX_PARTS) := by
  have hdelim : delimiter b.delimiter.text = some (b.text,false) :=
    delimiter_of_part (spelled_plain hmem) (Mime.delimits_delimiter b)
  rw [guardLine,hdelim]
  dsimp only
  rw [if_neg (by simp [hmem]),if_neg Bool.false_ne_true]
  refine (pushToken_delimiter hfresh hentered).bind fun _ => ?_
  exact ⟨fun hparts => if_neg (Nat.not_lt.mpr hparts),fun hparts => ⟨.parts,if_pos (Nat.not_le.mp hparts)⟩⟩

theorem guardLine_closeDelimiter (hmem : b.text ∈ boundaries) :
    guardLine boundaries ⟨b.text :: stack,p⟩ b.closeDelimiter.text = .ok ⟨stack,p⟩ := by
  have hdelim : delimiter b.closeDelimiter.text = some (b.text,true) :=
    delimiter_of_close (spelled_plain hmem) (Mime.delimits_closeDelimiter b)
  rw [guardLine,hdelim]
  dsimp only
  rw [if_neg (by simp [hmem]),if_pos rfl]
  simp [closeToken]

/-- What the check can rely on where parts are read with `stack` open: their boundaries are
declared, and differ from each other and from the open ones. -/
structure Legible (boundaries stack : List JsString) (multiparts : List Mime.MultipartType) (content : List Mime.Line) : Prop where
  declared : ∀ t ∈ multiparts, t.boundary.text ∈ boundaries
  distinct : (multiparts.map (·.boundary.text)).Nodup
  fresh : ∀ t ∈ multiparts, t.boundary.text ∉ stack
  quiet : Quiet boundaries content

variable {t : Mime.MultipartType} {multiparts multiparts' : List Mime.MultipartType} {content content' : List Mime.Line}

theorem Legible.restrict (h : Legible boundaries stack multiparts content) (hsub : multiparts' <+ multiparts)
    (hcontent : content' ⊆ content) : Legible boundaries stack multiparts' content' where
  declared t ht := h.declared t (hsub.subset ht)
  distinct := h.distinct.sublist (hsub.map _)
  fresh t ht := h.fresh t (hsub.subset ht)
  quiet line hline := h.quiet line (hcontent hline)

/-- The body parts of a multipart are read with its boundary on the stack. -/
theorem Legible.enter (h : Legible boundaries stack (t :: multiparts) content) :
    Legible boundaries (t.boundary.text :: stack) multiparts content where
  declared t ht := h.declared t (List.mem_cons_of_mem _ ht)
  distinct := (List.nodup_cons.mp h.distinct).2
  fresh t' ht' := by
    rw [List.mem_cons,not_or]
    refine ⟨fun heq => ?_,h.fresh t' (List.mem_cons_of_mem _ ht')⟩
    exact (List.nodup_cons.mp h.distinct).1 (List.mem_map.mpr ⟨t',ht',heq⟩)
  quiet := h.quiet

/-- Where nothing is delimited, the state stays as it is. -/
theorem guardAll_content {lines rest : List Mime.Line} {g g' : GuardState} {P : Prop} (hquiet : Quiet boundaries lines)
    (hrest : Succeeds (guardAll boundaries g rest) g' P) : Succeeds (guardAll boundaries g (lines ++ rest)) g' P := by
  rw [guardAll_append,guardAll_quiet hquiet]
  exact hrest

mutual

/-- Over the lines of an entity the stack comes back to what it was. -/
theorem guardAll_entity (e : Mime.Entity) {stack : List JsString} {p : Nat} (h : Legible boundaries stack e.multiparts e.content)
    (hdepth : stack.length ≤ MAX_DEPTH) (hparts : p ≤ MAX_PARTS) :
    Succeeds (guardAll boundaries ⟨stack,p⟩ e.lines) ⟨stack,p + e.bodyParts⟩
      (stack.length + e.depth ≤ MAX_DEPTH ∧ p + e.bodyParts ≤ MAX_PARTS) := by
  cases e with
  | leaf fields body =>
    refine ⟨fun _ => guardAll_quiet h.quiet,fun hnot => absurd ⟨hdepth,hparts⟩ hnot⟩
  | message fields inner =>
    rw [Mime.Entity.multiparts,Mime.Entity.content,List.append_cons] at h
    rw [Mime.Entity.lines,Mime.Entity.depth,Mime.Entity.bodyParts,List.append_cons]
    refine guardAll_content (fun line hline => h.quiet line (List.mem_append_left _ hline)) ?_
    exact guardAll_entity inner (h.restrict (List.Sublist.refl _) (List.subset_append_right _ _)) hdepth hparts
  | multipart fields type more preamble parts epilogue =>
    rw [Mime.Entity.multiparts,Mime.Entity.content] at h
    rw [Mime.Entity.lines,Mime.Entity.depth,Mime.Entity.bodyParts,List.append_assoc (fields ++ type.lines ++ more ++ _)]
    have hmem := h.declared type List.mem_cons_self
    have hinner : Legible boundaries (type.boundary.text :: stack) parts.multiparts parts.content :=
      h.enter.restrict (List.Sublist.refl _) fun line hline => List.mem_append_left _ (List.mem_append_right _ hline)
    refine guardAll_content (fun line hline => h.quiet line (List.mem_append_left _ (List.mem_append_left _ hline))) ?_
    rw [guardAll_append]
    have hbody := guardAll_parts parts hinner hmem (h.fresh type List.mem_cons_self) (p := p) (.inl rfl)
    have hclose : guardAll boundaries ⟨type.boundary.text :: stack,p + parts.bodyParts⟩ (type.boundary.closeDelimiter :: epilogue) =
        .ok ⟨stack,p + parts.bodyParts⟩ := by
      rw [guardAll_cons,guardLine_closeDelimiter hmem]
      exact guardAll_quiet fun line hline => h.quiet line (List.mem_append_right _ hline)
    have hend := hbody.bind (Q := True) (f := fun g => guardAll boundaries g (type.boundary.closeDelimiter :: epilogue)) fun _ =>
      ⟨fun _ => hclose,fun hnot => absurd trivial hnot⟩
    refine hend.congr ?_
    rw [and_true,Nat.add_assoc,Nat.add_comm 1]

theorem guardAll_parts (parts : Mime.Parts) {b : Mime.PlainBoundary} {stack entered : List JsString} {p : Nat}
    (h : Legible boundaries (b.text :: stack) parts.multiparts parts.content) (hmem : b.text ∈ boundaries) (hfresh : b.text ∉ stack)
    (hentered : entered = stack ∨ entered = b.text :: stack ∧ stack.length + 1 ≤ MAX_DEPTH) :
    Succeeds (guardAll boundaries ⟨entered,p⟩ (parts.lines b)) ⟨b.text :: stack,p + parts.bodyParts⟩
      (stack.length + 1 + parts.depth ≤ MAX_DEPTH ∧ p + parts.bodyParts ≤ MAX_PARTS) := by
  cases parts with
  | last e =>
    rw [Mime.Parts.multiparts,Mime.Parts.content] at h
    have hcount : p + (e.bodyParts + 1) = p + 1 + e.bodyParts := by omega
    rw [Mime.Parts.lines,Mime.Parts.depth,Mime.Parts.bodyParts,guardAll_cons,hcount]
    have hfirst := (guardLine_delimiter (p := p) hmem hfresh hentered).bind (f := fun g => guardAll boundaries g e.lines) fun hopen =>
      guardAll_entity e h hopen.1 hopen.2
    refine hfirst.congr ?_
    rw [List.length_cons]
    omega
  | more e rest =>
    rw [Mime.Parts.multiparts,Mime.Parts.content] at h
    have hleft := h.restrict (List.sublist_append_left _ _) (List.subset_append_left _ _)
    have hright := h.restrict (List.sublist_append_right _ _) (List.subset_append_right _ _)
    have hcount : p + (e.bodyParts + 1 + rest.bodyParts) = p + 1 + e.bodyParts + rest.bodyParts := by omega
    rw [Mime.Parts.lines,Mime.Parts.depth,Mime.Parts.bodyParts,guardAll_cons,hcount]
    have hrest (hopen : stack.length + 1 ≤ MAX_DEPTH ∧ p + 1 ≤ MAX_PARTS) :=
      (guardAll_entity e hleft hopen.1 hopen.2).bind (f := fun g => guardAll boundaries g (rest.lines b)) fun _ =>
        guardAll_parts rest hright hmem hfresh (.inr ⟨rfl,hopen.1⟩)
    have hfirst := (guardLine_delimiter (p := p) hmem hfresh hentered).bind (f := fun g => guardAll boundaries g (e.lines ++ rest.lines b))
      fun hopen => by
        rw [guardAll_append]
        exact hrest hopen
    refine hfirst.congr ?_
    rw [List.length_cons]
    omega

end

theorem latin1_octets (e : Mime.Entity) : latin1 e.octets = e.text := by
  rw [latin1,Mime.Entity.octets,List.map_map]
  refine (List.map_congr_left fun c hc => ?_).trans (List.map_id _)
  have hsmall : c.toNat < 256 := UInt16.lt_iff_toNat_lt.mp (Mime.Entity.text_octets hc)
  refine UInt16.toNat_inj.mp ?_
  simpa using Nat.mod_eq_of_lt hsmall

theorem textLines_text (e : Mime.Entity) : textLines e.text = e.lines.map Mime.Line.text := by
  have hclean : ∀ text ∈ e.lines.map Mime.Line.text, 13 ∉ text ∧ 10 ∉ text := by
    intro text htext
    obtain ⟨line,-,rfl⟩ := List.mem_map.mp htext
    exact line.no_break
  rw [textLines,Mime.Entity.text,pairToLf_joined fun text htext => (hclean text htext).1]
  exact List.splitOn_intercalate 10 (fun text htext => (hclean text htext).2) fun hnil => e.lines_ne_nil (List.map_eq_nil_iff.mp hnil)

/-- Where nothing but the delimiters looks like one to the check, it throws on the trees
beyond the limits and on no others. -/
theorem structure_limits_exact {e : Mime.Entity} (hdistinct : e.boundaries.Nodup)
    (hcontent : ∀ line ∈ e.content, ∀ b ∈ declared e.text, Mime.delimits b line.text = none) :
    (∃ err, assertStructureWithinLimits e.octets = .error err) ↔ 8 < e.depth ∨ 200 < e.bodyParts := by
  have hlegible : Legible (declared e.text) [] e.multiparts e.content :=
    ⟨fun t ht => declared_of_multipart ht,hdistinct,fun _ _ => List.not_mem_nil,hcontent⟩
  have hrun := guardAll_entity e hlegible (p := 0) (Nat.zero_le _) (Nat.zero_le _)
  have hthrows : (∃ err, assertStructureWithinLimits e.octets = .error err) ↔
      ∃ err, guardAll (declared e.text) ⟨[],0⟩ e.lines = .error err := by
    rw [assertStructureWithinLimits_eq,latin1_octets,textLines_text,← guardAll]
    cases guardAll (declared e.text) ⟨[],0⟩ e.lines with
    | error err => simp [Except.map]
    | ok g => simp [Except.map]
  rw [hthrows,hrun.error_iff,List.length_nil,MAX_DEPTH,MAX_PARTS]
  omega

/-- Multiparts of one part each around an entity, with digits for boundaries. -/
def nested (levels : List (Fin 10)) (inner : Mime.Entity) : Mime.Entity :=
  levels.foldr (fun n inner => .multipart [] ⟨⟨js "mixed",by decide⟩,⟨[48 + n.val.toUInt16],by simp,by revert n; decide⟩,none,false,true⟩
    [] [] (.last inner) []) inner

theorem nested_limits_exact : (nested [0,1,2,3,4,5,6,7,8] (.leaf [] [])).boundaries.Nodup ∧
    ((∃ err, assertStructureWithinLimits (nested [0,1,2,3,4,5,6,7,8] (.leaf [] [])).octets = .error err) ↔
      8 < (nested [0,1,2,3,4,5,6,7,8] (.leaf [] [])).depth ∨ 200 < (nested [0,1,2,3,4,5,6,7,8] (.leaf [] [])).bodyParts) := by
  have hdistinct : (nested [0,1,2,3,4,5,6,7,8] (.leaf [] [])).boundaries.Nodup := by decide +kernel
  exact ⟨hdistinct,structure_limits_exact hdistinct (by decide +kernel)⟩

/-- A text line that is the outermost boundary's delimiter but for the blank after it. -/
def paddedLine : Mime.Line := ⟨js "--1 ",by decide⟩

/-- With a blank after it, the line counts as one level more. -/
theorem padded_line_throws : ¬∀ e : Mime.Entity, e.boundaries.Nodup →
    (∀ line ∈ e.content, ∀ b ∈ declared e.text, line.text ≠ js "--" ++ b ∧ line.text ≠ js "--" ++ b ++ js "--") →
    ((∃ err, assertStructureWithinLimits e.octets = .error err) ↔ 8 < e.depth ∨ 200 < e.bodyParts) := by
  intro h
  have hthrows : assertStructureWithinLimits (nested [1,2,3,4,5,6,7,8] (.leaf [] [paddedLine])).octets = .error .depth := by
    decide +kernel
  have hlimits := (h (nested [1,2,3,4,5,6,7,8] (.leaf [] [paddedLine])) (by decide +kernel) (by decide +kernel)).mp ⟨_,hthrows⟩
  exact absurd hlimits (by decide +kernel)

end Reading
end JustMail.MailParser
