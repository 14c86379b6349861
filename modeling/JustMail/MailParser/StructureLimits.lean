import JustMail.MailParser.StructureGuard

/-! When the check keeps MIME bombs out. As long as it sees every delimiter of the
message, the open multiparts are a subsequence of its stack. -/
namespace JustMail.MailParser
open Foundation
open scoped List

section Delimiters
variable {x z padding rest : JsString}

private theorem dashes : js "--" = [unit '-',unit '-'] := by decide
private theorem dash_not_blank : Mime.isBlank (unit '-') = false := by decide

/-- The first group takes the shortest text after which the rest of the pattern matches. -/
theorem lazyToken_eq {isClose : Bool} (token : JsString) (hne : x ≠ []) (hline : ∀ c ∈ x, isLineTerminator c = false)
    (hend : delimiterEnd rest = some isClose)
    (hlazy : ∀ y z, x = y ++ z → y ≠ [] → z ≠ [] → delimiterEnd (z ++ rest) = none) :
    lazyToken token (x ++ rest) = some (token ++ x,isClose) := by
  induction x generalizing token with
  | nil => exact absurd rfl hne
  | cons c x ih =>
    rw [List.cons_append,lazyToken,if_neg (by simp [hline c List.mem_cons_self])]
    cases x with
    | nil => simp [hend]
    | cons d x =>
      rw [hlazy [c] (d :: x) rfl (by simp) (by simp)]
      dsimp only
      rw [ih (token ++ [c]) (by simp) (fun c' hc' => hline c' (List.mem_cons_of_mem c hc')) fun y z hyz _ hz =>
        hlazy (c :: y) z (by rw [hyz]; rfl) (by simp) hz]
      simp

theorem delimiterEnd_padding (h : padding.all Mime.isBlank = true) : delimiterEnd padding = some false := by
  rw [delimiterEnd,if_neg,if_pos h]
  rintro ⟨⟨rest,rfl⟩,-⟩
  simp [dashes,dash_not_blank] at h

theorem delimiterEnd_close (h : padding.all Mime.isBlank = true) : delimiterEnd (js "--" ++ padding) = some true := by
  rw [delimiterEnd,if_pos]
  exact ⟨List.prefix_append _ _,by simpa [dashes] using h⟩

/-- What is more than blanks and a pair of dashes does not end a delimiter. -/
theorem delimiterEnd_none (hlast : ∃ c ∈ z.getLast?, Mime.isBlank c = false) (hz : z ≠ js "--")
    (hpad : padding.all Mime.isBlank = true) : delimiterEnd (z ++ padding) = none := by
  obtain ⟨c,hc,hblank⟩ := hlast
  have hmem : c ∈ z := List.mem_of_mem_getLast? hc
  rw [delimiterEnd,if_neg,if_neg]
  · intro hall
    rw [List.all_append,Bool.and_eq_true,List.all_eq_true] at hall
    simp [hall.1 c hmem] at hblank
  · rintro ⟨hdash,hdrop⟩
    rw [dashes] at hdash hz
    match z, hc, hz with
    | [a], hc, _ =>
      cases padding with
      | nil => simp at hdash
      | cons d padding =>
        obtain ⟨-,rfl⟩ : unit '-' = a ∧ unit '-' = d := by simpa using hdash
        simp [dash_not_blank] at hpad
    | [a,b], _, hz =>
      obtain ⟨rfl,rfl⟩ : unit '-' = a ∧ unit '-' = b := by simpa using hdash
      exact hz rfl
    | a :: b :: d :: w, hc, _ =>
      have hc' : c ∈ (d :: w).getLast? := by simpa using hc
      have hall : Mime.isBlank c = true :=
        List.all_eq_true.mp hdrop c (List.mem_append_left padding (List.mem_of_mem_getLast? hc'))
      simp [hall] at hblank

/-- A boundary that both patterns read as it is: its declaration is captured, its text
stays on one line and does not look closed. -/
structure Spelled (boundaries : List JsString) (boundary : JsString) : Prop where
  declared : boundary ∈ boundaries
  oneLine : ∀ c ∈ boundary, isLineTerminator c = false
  unclosed : ∀ y, boundary = y ++ js "--" → y = []

def isSpelled (boundaries : List JsString) (boundary : JsString) : Bool :=
  boundaries.contains boundary && boundary.all (!isLineTerminator ·) && !(2 < boundary.length && (js "--").isSuffixOf boundary)

variable {boundaries : List JsString} {b : Mime.Boundary} {line : JsString}

theorem Spelled.of_isSpelled (h : isSpelled boundaries x = true) : Spelled boundaries x := by
  simp only [isSpelled,Bool.and_eq_true,List.contains_iff_mem,List.all_eq_true,Bool.not_eq_true',Bool.and_eq_false_iff,
    decide_eq_false_iff_not,Nat.not_lt] at h
  obtain ⟨⟨hdeclared,hline⟩,hclosed⟩ := h
  refine ⟨hdeclared,hline,?_⟩
  rintro y rfl
  rcases hclosed with hshort | hsuffix
  · exact List.length_eq_zero_iff.mp (by simpa [dashes] using hshort)
  · have hdashes : (js "--").isSuffixOf (y ++ js "--") = true := List.isSuffixOf_iff_suffix.mpr (List.suffix_append _ _)
    simp [hdashes] at hsuffix

private theorem last_of_suffix {y : JsString} (h : b.text = y ++ z) (hz : z ≠ []) :
    ∃ c ∈ z.getLast?, Mime.isBlank c = false := by
  refine ⟨z.getLast hz,List.getLast?_eq_some_getLast hz,?_⟩
  have hlast := List.rdropWhile_eq_self_iff.mp b.trimmed b.nonempty
  simpa [h,List.getLast_append_of_ne_nil _ hz] using hlast

theorem delimiter_of_part (h : Spelled boundaries b.text) (hline : Mime.delimits b.text line = some .part) :
    delimiter line = some (b.text,false) := by
  obtain ⟨padding,rfl,hpad⟩ := Mime.delimits_part hline
  rw [delimiter,List.append_assoc,if_pos (List.prefix_append _ _)]
  have hdrop : (js "--" ++ (b.text ++ padding)).drop 2 = b.text ++ padding := by simp [dashes]
  rw [hdrop]
  refine lazyToken_eq [] b.nonempty h.oneLine (delimiterEnd_padding hpad) fun y z hyz hy hz => ?_
  refine delimiterEnd_none (last_of_suffix hyz hz) ?_ hpad
  rintro rfl
  exact hy (h.unclosed y hyz)

theorem delimiter_of_close (h : Spelled boundaries b.text) (hline : Mime.delimits b.text line = some .close) :
    delimiter line = some (b.text,true) := by
  obtain ⟨padding,rfl,hpad⟩ := Mime.delimits_close hline
  rw [delimiter,List.append_assoc,List.append_assoc,if_pos (List.prefix_append _ _)]
  have hdrop : (js "--" ++ (b.text ++ (js "--" ++ padding))).drop 2 = b.text ++ (js "--" ++ padding) := by simp [dashes]
  rw [hdrop]
  refine lazyToken_eq [] b.nonempty h.oneLine (delimiterEnd_close hpad) fun y z hyz hy hz => ?_
  rw [← List.append_assoc]
  refine delimiterEnd_none ⟨unit '-',by simp [dashes],dash_not_blank⟩ ?_ hpad
  intro heq
  exact hz (List.append_left_eq_self.mp heq)

end Delimiters

section Stack
variable {boundaries stack stack' path : List JsString} {token line : JsString} {g g' : GuardState}

/-- What the body of the loop can do. -/
theorem guardLine_cases (h : guardLine boundaries g line = .ok g') :
    (g' = g ∧ ∀ token isClose, delimiter line = some (token,isClose) → token ∉ boundaries) ∨
    (∃ token, delimiter line = some (token,true) ∧ token ∈ boundaries ∧ g' = ⟨closeToken token g.stack,g.parts⟩) ∨
    ∃ token stack, delimiter line = some (token,false) ∧ token ∈ boundaries ∧ pushToken token g.stack = .ok stack ∧
      g.parts + 1 ≤ MAX_PARTS ∧ g' = ⟨stack,g.parts + 1⟩ := by
  rw [guardLine] at h
  split at h
  · rename_i hnone
    exact .inl ⟨(Except.ok.inj h).symm,by simp [hnone]⟩
  · rename_i token isClose hdelim
    by_cases hmem : token ∈ boundaries
    · rw [if_neg (by simp [hmem])] at h
      cases isClose with
      | true => exact .inr (.inl ⟨token,hdelim,hmem,(Except.ok.inj h).symm⟩)
      | false =>
        rw [if_neg (by simp)] at h
        cases hpush : pushToken token g.stack with
        | error e => simp [hpush,bind,Except.bind] at h
        | ok stack =>
          simp only [hpush,bind,Except.bind] at h
          split at h
          · simp at h
          · rename_i hparts
            exact .inr (.inr ⟨token,stack,hdelim,hmem,hpush,Nat.le_of_not_lt hparts,(Except.ok.inj h).symm⟩)
    · rw [if_pos (by simp [hmem])] at h
      refine .inl ⟨(Except.ok.inj h).symm,fun token' isClose' heq => ?_⟩
      rw [hdelim,Option.some.injEq,Prod.mk.injEq] at heq
      exact heq.1 ▸ hmem

theorem pushToken_cases (h : pushToken token stack = .ok stack') :
    (stack' = stack ∧ stack.head? = some token) ∨ (stack' = token :: stack ∧ stack.length + 1 ≤ MAX_DEPTH) := by
  rw [pushToken] at h
  split at h
  · rename_i hhead
    exact .inl ⟨(Except.ok.inj h).symm,hhead⟩
  · split at h
    · simp at h
    · rename_i hdepth
      exact .inr ⟨(Except.ok.inj h).symm,Nat.le_of_not_lt hdepth⟩

theorem sublist_pushToken (h : pushToken token stack = .ok stack') : stack <+ stack' := by
  rcases pushToken_cases h with ⟨rfl,-⟩ | ⟨rfl,-⟩
  · exact List.Sublist.refl _
  · exact List.sublist_cons_self token stack

/-- A multipart that is entered has its own entry on the stack. -/
theorem cons_sublist_pushToken (h : pushToken token stack = .ok stack') (hpath : path <+ stack) (hnew : token ∉ path) :
    (token :: path) <+ stack' := by
  rcases pushToken_cases h with ⟨rfl,hhead⟩ | ⟨rfl,-⟩
  · obtain ⟨below,rfl⟩ := List.head?_eq_some_iff.mp hhead
    refine List.cons_sublist_cons.mpr ?_
    cases hpath with
    | cons _ hbelow => exact hbelow
    | cons_cons _ _ => exact absurd List.mem_cons_self hnew
  · exact List.cons_sublist_cons.mpr hpath

/-- Closing an open multipart keeps those around it on the stack. -/
theorem sublist_closeToken (h : (token :: path) <+ stack) : path <+ closeToken token stack := by
  induction stack with
  | nil => simp at h
  | cons entry stack ih =>
    by_cases heq : entry = token
    · subst heq
      simpa [closeToken] using List.cons_sublist_cons.mp h
    · have hstack : (token :: path) <+ stack := by
        cases h with
        | cons _ h => exact h
        | cons_cons => exact absurd rfl heq
      have hdrop : stack.dropWhile (· ≠ token) ≠ [] := by
        intro hnil
        have hmem := hstack.subset List.mem_cons_self
        simpa using List.dropWhile_eq_nil_iff.mp hnil token hmem
      have hclose : closeToken token (entry :: stack) = closeToken token stack := by
        rw [closeToken,closeToken,List.dropWhile_cons_of_pos (by simpa using heq)]
        split
        · rename_i hnil
          exact absurd hnil hdrop
        · rfl
      rw [hclose]
      exact ih hstack

end Stack

section Limits
variable {boundaries : List JsString} {r : Mime.Reader} {g g' : GuardState} {line : JsString}

def openBoundaries (r : Mime.Reader) : List JsString := r.path.map (·.boundary.text)

/-- The line ends a multipart that is open. -/
def closesOpen (r : Mime.Reader) (line : JsString) : Bool :=
  match Mime.locate line r.path with
  | some (.close,_,_) => true
  | _ => false

/-- How a line looks to the check, where `r` has been read and `stack` has been built
before it. A line that begins a body part belongs to a boundary that is spelled for both
patterns; a line that closes a declared boundary, but is not the end of an open
multipart, leaves the open multiparts on the stack. -/
def seen (boundaries : List JsString) (r : Mime.Reader) (stack : List JsString) (line : JsString) : Bool :=
  (match r.delimiter line with
    | some (.part,l,_) => isSpelled boundaries l.boundary.text
    | _ => true) &&
  match delimiter line with
    | some (token,true) => !boundaries.contains token || closesOpen r line ||
      (openBoundaries r).isSublist (closeToken token stack)
    | _ => true

def seenFrom (boundaries : List JsString) (r : Mime.Reader) (g : GuardState) : List JsString → Bool
  | [] => true
  | line :: lines => seen boundaries r g.stack line &&
    match guardLine boundaries g line with
    | .ok g' => seenFrom boundaries (r.line line) g' lines
    | .error _ => true

/-- Every line of the message is seen for what it is. -/
def seenThrough (text : JsString) : Bool := seenFrom (declared text) .initial ⟨[],0⟩ (textLines text)

theorem part_of_seen {l : Mime.Level} {outer : List Mime.Level} {stack : List JsString} (h : seen boundaries r stack line = true)
    (hd : r.delimiter line = some (.part,l,outer)) : Spelled boundaries l.boundary.text := by
  simp only [seen,hd,Bool.and_eq_true] at h
  exact .of_isSpelled h.1

theorem stray_of_seen {token : JsString} {stack : List JsString} (h : seen boundaries r stack line = true)
    (htoken : delimiter line = some (token,true)) (hmem : token ∈ boundaries) (hopen : closesOpen r line = false) :
    openBoundaries r <+ closeToken token stack := by
  simp only [seen,htoken,hopen,Bool.and_eq_true] at h
  have hstray := h.2
  simp only [List.contains_iff_mem.mpr hmem,Bool.not_true,Bool.or_self,Bool.false_or,List.isSublist_iff_sublist] at hstray
  exact hstray

structure GuardInv (boundaries : List JsString) (r : Mime.Reader) (g : GuardState) : Prop where
  spelled : ∀ l ∈ r.path, Spelled boundaries l.boundary.text
  sublist : openBoundaries r <+ g.stack
  stack_le : g.stack.length ≤ MAX_DEPTH
  depth_le : r.depth ≤ MAX_DEPTH
  parts_le : r.parts ≤ g.parts
  parts_limit : g.parts ≤ MAX_PARTS

theorem guardInv_initial : GuardInv boundaries .initial ⟨[],0⟩ :=
  ⟨by simp [Mime.Reader.initial],List.Sublist.refl _,Nat.zero_le _,Nat.zero_le _,Nat.zero_le _,Nat.zero_le _⟩

/-- A pushed token leaves the stack within the limit. -/
theorem length_pushToken {token : JsString} {stack stack' : List JsString} (h : pushToken token stack = .ok stack')
    (hlength : stack.length ≤ MAX_DEPTH) : stack'.length ≤ MAX_DEPTH := by
  rcases pushToken_cases h with ⟨rfl,-⟩ | ⟨rfl,hpushed⟩
  · exact hlength
  · exact hpushed

theorem length_closeToken (token : JsString) (stack : List JsString) : (closeToken token stack).length ≤ stack.length := by
  have hdrop := (List.dropWhile_sublist (· ≠ token) (l := stack)).length_le
  rw [closeToken]
  split
  · exact Nat.le_refl _
  · rename_i hcons
    rw [hcons] at hdrop
    exact Nat.le_of_succ_le hdrop

theorem guardInv_part {l : Mime.Level} {outer : List Mime.Level} (h : GuardInv boundaries r g)
    (hseen : seen boundaries r g.stack line = true)
    (hd : r.delimiter line = some (.part,l,outer)) (hg : guardLine boundaries g line = .ok g') :
    GuardInv boundaries (r.line line) g' := by
  have hspelled := part_of_seen hseen hd
  obtain ⟨hdelimits,hlevel⟩ := Mime.delimiter_cases hd
  have hdelim := delimiter_of_part hspelled hdelimits
  obtain ⟨hpath,hdepth,hparts⟩ := Mime.line_part hd
  rcases guardLine_cases hg with ⟨-,hnot⟩ | ⟨token,htoken,-⟩ | ⟨token,stack,htoken,-,hpush,hlimit,rfl⟩
  · exact absurd hspelled.declared (hnot _ _ hdelim)
  · simp [hdelim] at htoken
  · obtain rfl : l.boundary.text = token := by simpa [hdelim] using htoken
    have hsub : (l :: outer).map (·.boundary.text) <+ stack := by
      rcases hlevel with hsuffix | ⟨rfl,hnone⟩
      · exact ((hsuffix.sublist.map _).trans h.sublist).trans (sublist_pushToken hpush)
      · refine cons_sublist_pushToken hpush h.sublist fun hmem => ?_
        -- The line would have been the delimiter of that multipart.
        obtain ⟨l',hl',heq⟩ := List.mem_map.mp hmem
        simp [← heq,hnone l' hl'] at hdelimits
    have hlength := length_pushToken hpush h.stack_le
    have hopen : outer.length + 1 ≤ MAX_DEPTH := by simpa using hsub.length_le.trans hlength
    refine ⟨?_,?_,hlength,?_,?_,hlimit⟩
    · rw [hpath]
      intro l' hl'
      rcases List.mem_cons.mp hl' with rfl | hl'
      · exact hspelled
      · rcases hlevel with hsuffix | ⟨rfl,-⟩
        · exact h.spelled l' (hsuffix.subset (List.mem_cons_of_mem l hl'))
        · exact h.spelled l' hl'
    · rw [openBoundaries,hpath]
      exact hsub
    · rw [hdepth]
      exact Nat.max_le.mpr ⟨h.depth_le,hopen⟩
    · rw [hparts]
      exact Nat.succ_le_succ h.parts_le

theorem guardInv_other (h : GuardInv boundaries r g) (hpath : (r.line line).path <:+ r.path)
    (hdepth : (r.line line).depth = r.depth) (hparts : (r.line line).parts = r.parts)
    (hclose : ∀ token, delimiter line = some (token,true) → token ∈ boundaries →
      openBoundaries (r.line line) <+ closeToken token g.stack)
    (hg : guardLine boundaries g line = .ok g') : GuardInv boundaries (r.line line) g' := by
  have hspelled : ∀ l ∈ (r.line line).path, Spelled boundaries l.boundary.text := fun l hl => h.spelled l (hpath.subset hl)
  have hsub : openBoundaries (r.line line) <+ g.stack := (hpath.sublist.map _).trans h.sublist
  have hdepth' := hdepth ▸ h.depth_le
  have hparts' := hparts ▸ h.parts_le
  rcases guardLine_cases hg with ⟨rfl,-⟩ | ⟨token,htoken,hmem,rfl⟩ | ⟨token,stack,-,-,hpush,hlimit,rfl⟩
  · exact ⟨hspelled,hsub,h.stack_le,hdepth',hparts',h.parts_limit⟩
  · exact ⟨hspelled,hclose token htoken hmem,(length_closeToken token g.stack).trans h.stack_le,hdepth',hparts',h.parts_limit⟩
  · exact ⟨hspelled,hsub.trans (sublist_pushToken hpush),length_pushToken hpush h.stack_le,hdepth',
      Nat.le_succ_of_le hparts',hlimit⟩

theorem guardInv_line (h : GuardInv boundaries r g) (hseen : seen boundaries r g.stack line = true)
    (hg : guardLine boundaries g line = .ok g') : GuardInv boundaries (r.line line) g' := by
  cases hd : r.delimiter line with
  | none =>
    obtain ⟨hpath,hdepth,hparts⟩ := Mime.line_none hd
    refine guardInv_other h (hpath ▸ List.suffix_refl _) hdepth hparts (fun token htoken hmem => ?_) hg
    rw [openBoundaries,hpath]
    refine stray_of_seen hseen htoken hmem ?_
    rw [Mime.Reader.delimiter,Option.or_eq_none_iff] at hd
    rw [closesOpen,hd.1]
  | some found =>
    obtain ⟨d,l,outer⟩ := found
    cases d with
    | part => exact guardInv_part h hseen hd hg
    | close =>
      obtain ⟨hdelimits,hlevel⟩ := Mime.delimiter_cases hd
      obtain ⟨hpath,hdepth,hparts⟩ := Mime.line_close hd
      have hsuffix : (r.line line).path <:+ r.path := by
        rw [hpath]
        rcases hlevel with hsuffix | ⟨rfl,-⟩
        · exact (List.suffix_cons l outer).trans hsuffix
        · exact List.suffix_refl _
      refine guardInv_other h hsuffix hdepth hparts (fun token htoken hmem => ?_) hg
      rw [openBoundaries,hpath]
      rcases hlevel with hopen | ⟨rfl,hnone⟩
      · have hl : l ∈ r.path := hopen.subset List.mem_cons_self
        have hdelim := delimiter_of_close (h.spelled l hl) hdelimits
        obtain rfl : l.boundary.text = token := by simpa [hdelim] using htoken
        exact sublist_closeToken ((hopen.sublist.map fun l : Mime.Level => l.boundary.text).trans h.sublist)
      · -- The multipart had no part yet, so it has no entry of its own.
        refine stray_of_seen hseen htoken hmem ?_
        rw [closesOpen]
        split
        · rename_i l' outer' hlocate
          obtain ⟨hsuffix',hclose⟩ := Mime.locate_some hlocate
          simp [hnone l' (hsuffix'.subset List.mem_cons_self)] at hclose
        · rfl

/-- The invariant after any number of lines that the check lets pass. -/
theorem guardInv_lines {lines : List JsString} (h : GuardInv boundaries r g) (hseen : seenFrom boundaries r g lines = true)
    (hrun : lines.foldlM (guardLine boundaries) g = .ok g') : GuardInv boundaries (lines.foldl Mime.Reader.line r) g' := by
  induction lines generalizing r g with
  | nil =>
    obtain rfl : g = g' := Except.ok.inj hrun
    exact h
  | cons line lines ih =>
    rw [seenFrom,Bool.and_eq_true] at hseen
    obtain ⟨hline,hrest⟩ := hseen
    rw [List.foldlM_cons] at hrun
    cases hg : guardLine boundaries g line with
    | error e => simp [hg,bind,Except.bind] at hrun
    | ok g₁ =>
      rw [hg] at hrest hrun
      exact ih (guardInv_line h hline hg) hrest hrun

/-- Without a declared boundary the loop changes nothing, so the early return is no exception. -/
theorem assertStructureWithinLimits_eq (raw : List UInt8) : assertStructureWithinLimits raw =
    ((textLines (latin1 raw)).foldlM (guardLine (declared (latin1 raw))) ⟨[],0⟩).map fun _ => () := by
  rw [assertStructureWithinLimits]
  split
  · rename_i hempty
    rw [List.isEmpty_iff.mp hempty]
    have hline : ∀ line, guardLine [] ⟨[],0⟩ line = .ok ⟨[],0⟩ := by
      intro line
      rw [guardLine]
      split
      · rfl
      · simp
    generalize textLines (latin1 raw) = lines
    induction lines with
    | nil => rfl
    | cons line lines ih =>
      rw [List.foldlM_cons,hline]
      exact ih
  · rfl

theorem lines_pass_of_ok {raw : List UInt8} (h : assertStructureWithinLimits raw = .ok ()) :
    ∃ g, (textLines (latin1 raw)).foldlM (guardLine (declared (latin1 raw))) ⟨[],0⟩ = .ok g := by
  rw [assertStructureWithinLimits_eq] at h
  cases hrun : (textLines (latin1 raw)).foldlM (guardLine (declared (latin1 raw))) ⟨[],0⟩ with
  | error e => simp [hrun,Except.map] at h
  | ok g => exact ⟨g,rfl⟩

/-- A message that is seen for what it is and passes the check is within its limits. -/
theorem structure_within_limits {raw : List UInt8} (hseen : seenThrough (latin1 raw) = true)
    (hok : assertStructureWithinLimits raw = .ok ()) :
    (Mime.readLines (textLines (latin1 raw))).depth ≤ 8 ∧ (Mime.readLines (textLines (latin1 raw))).parts ≤ 200 := by
  obtain ⟨g,hrun⟩ := lines_pass_of_ok hok
  have hinv := guardInv_lines guardInv_initial hseen hrun
  exact ⟨hinv.depth_le,hinv.parts_le.trans hinv.parts_limit⟩

def octets (text : String) : List UInt8 := text.toList.map fun c => c.toNat.toUInt8

/-- A message with a text and an attachment. -/
def plainMessage : List UInt8 :=
  octets "Content-Type: multipart/mixed; boundary=\"b\"\r\n\r\n--b\r\n\r\nhello\r\n--b\r\n\r\nfile\r\n--b--\r\n"

theorem plain_message_within_limits : seenThrough (latin1 plainMessage) = true ∧ assertStructureWithinLimits plainMessage = .ok () ∧
    (Mime.readLines (textLines (latin1 plainMessage))).depth ≤ 8 ∧ (Mime.readLines (textLines (latin1 plainMessage))).parts ≤ 200 := by
  have hseen : seenThrough (latin1 plainMessage) = true := by decide +kernel
  have hok : assertStructureWithinLimits plainMessage = .ok () := by decide +kernel
  exact ⟨hseen,hok,structure_within_limits hseen hok⟩

/-- The header of a multipart whose boundary is continued over two parameters: `b` and
the number of the level. -/
def continuedHeader (level : Nat) : List UInt8 :=
  octets "Content-Type: multipart/mixed; boundary*0=b; boundary*1=" ++ (decimal level).map (·.toUInt8) ++ octets "\r\n\r\n"

def levelBoundary (level : Nat) : List UInt8 := octets "--b" ++ (decimal level).map (·.toUInt8)

/-- A text inside that many multiparts. -/
def bombMessage (levels : Nat) : List UInt8 :=
  (List.range levels).flatMap (fun level => continuedHeader level ++ levelBoundary level ++ octets "\r\n") ++
  octets "\r\ntext\r\n" ++
  (List.range levels).reverse.flatMap fun level => levelBoundary level ++ octets "--\r\n"

theorem continued_boundaries_pass : assertStructureWithinLimits (bombMessage 9) = .ok () ∧
    ¬(Mime.readLines (textLines (latin1 (bombMessage 9)))).depth ≤ 8 := by
  constructor
  · decide +kernel
  · decide +kernel

end Limits
end JustMail.MailParser
