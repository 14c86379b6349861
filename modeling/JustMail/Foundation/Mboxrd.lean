import JustMail.Foundation.Folding

/-! mboxrd archives: messages between lines that begin with "From ", and the quoting that keeps the
lines of a message from being taken for one of these. -/
namespace JustMail.Foundation.Mboxrd

abbrev Byte := UInt8
abbrev Bytes := List Byte

def LF : Byte := 10
def CR : Byte := 13
def GT : Byte := 62

def FROM : Bytes := [70,114,111,109,32]

/-- What `/^>*From /` matches. -/
def isFromLine (s : Bytes) : Bool := FROM.isPrefixOf (s.dropWhile (· == GT))

section Quoting
variable (isBreak : Byte → Bool)

/-- One more `>` in front of every line that `isFromLine` takes, where a line starts after each break, and
at the start of the text if `start` says so. -/
def quoteLines (start : Bool) : Bytes → Bytes
  | [] => []
  | b :: s => (if start && isFromLine (b :: s) then [GT] else []) ++ b :: quoteLines (isBreak b) s

/-- The content lines of each message, in front of which come lines that belong to none. -/
def groupLines : List Bytes → List Bytes × List (List Bytes)
  | [] => ([],[])
  | line :: lines =>
    if FROM.isPrefixOf line then ([],(groupLines lines).1 :: (groupLines lines).2)
    else (line :: (groupLines lines).1,(groupLines lines).2)

/-- One `>` is taken from a line of the form `>+From `. -/
def unquoteLine (line : Bytes) : Bytes :=
  match line with
  | b :: rest => if b = GT ∧ isFromLine rest = true then rest else line
  | [] => []

/-- The line feed at the end of each message, and so that at the end of the archive, is not part of it. -/
def readMbox (archive : Bytes) : List Bytes :=
  let text := if archive.getLast? = some LF then archive.dropLast else archive
  (groupLines (text.splitOn LF)).2.map fun lines => [LF].intercalate (lines.map unquoteLine)

end Quoting

section Lines
variable {isBreak : Byte → Bool} {s p : Bytes}

theorem isFromLine_gt (s : Bytes) : isFromLine (GT :: s) = isFromLine s := by
  simp [isFromLine]

theorem isFromLine_other {b : Byte} (h : b ≠ GT) (s : Bytes) : isFromLine (b :: s) = FROM.isPrefixOf (b :: s) := by
  simp [isFromLine,h]

theorem isFromLine_of_start (h : FROM.isPrefixOf s = true) : isFromLine s = true := by
  cases s with
  | nil => simp [FROM] at h
  | cons b s =>
    by_cases hb : b = GT
    · subst hb
      exact absurd h (by simp [FROM,GT])
    · rw [isFromLine_other hb]
      exact h

/-- What follows a line feed does not count. -/
theorem isPrefixOf_append_lf {q : Bytes} (hq : LF ∉ q) (p s : Bytes) : q.isPrefixOf (p ++ LF :: s) = q.isPrefixOf p := by
  induction q generalizing p with
  | nil => simp
  | cons c q ih =>
    rw [List.mem_cons,not_or] at hq
    cases p with
    | nil =>
      have hne : (c == LF) = false := by simpa using Ne.symm hq.1
      simp [List.isPrefixOf,hne]
    | cons b p => simp only [List.cons_append,List.isPrefixOf,ih hq.2]

theorem isFromLine_append_lf (p s : Bytes) : isFromLine (p ++ LF :: s) = isFromLine p := by
  induction p with
  | nil => rfl
  | cons b p ih =>
    by_cases hb : b = GT
    · subst hb
      rw [List.cons_append,isFromLine_gt,isFromLine_gt,ih]
    · rw [List.cons_append,isFromLine_other hb,isFromLine_other hb,← List.cons_append,isPrefixOf_append_lf (by decide)]

theorem quoteLines_true (s : Bytes) :
    quoteLines isBreak true s = (if isFromLine s then [GT] else []) ++ quoteLines isBreak false s := by
  cases s with
  | nil => rfl
  | cons b s => simp [quoteLines]

theorem quoteLines_append_lf (start : Bool) (p s : Bytes) :
    quoteLines isBreak start (p ++ LF :: s) = quoteLines isBreak start p ++ LF :: quoteLines isBreak (isBreak LF) s := by
  induction p generalizing start with
  | nil =>
    have hlf : isFromLine (LF :: s) = false := isFromLine_append_lf [] s
    simp [quoteLines,hlf]
  | cons b p ih =>
    have hfrom : isFromLine (b :: (p ++ LF :: s)) = isFromLine (b :: p) := isFromLine_append_lf (b :: p) s
    simp [quoteLines,hfrom,ih]

theorem quoteLines_intercalate (ps : List Bytes) :
    quoteLines isBreak (isBreak LF) ([LF].intercalate ps) = [LF].intercalate (ps.map (quoteLines isBreak (isBreak LF))) := by
  induction ps with
  | nil => rfl
  | cons p ps ih =>
    cases ps with
    | nil => simp
    | cons q ps =>
      rw [List.map_cons,List.map_cons,List.intercalate_cons_cons,List.intercalate_cons_cons,List.append_assoc,
        List.singleton_append,quoteLines_append_lf,ih,List.map_cons,List.append_assoc]
      rfl

theorem lf_notMem_quoteLines (h : LF ∉ p) (start : Bool) : LF ∉ quoteLines isBreak start p := by
  induction p generalizing start with
  | nil => exact h
  | cons b p ih =>
    rw [List.mem_cons,not_or] at h
    rw [quoteLines,List.mem_append,List.mem_cons]
    rintro (hgt | hb | hrest)
    · split at hgt
      · exact absurd hgt (by decide)
      · exact absurd hgt List.not_mem_nil
    · exact h.1 hb
    · exact ih h.2 _ hrest

/-- On a line, breaks count that are no line feeds. -/
theorem quoteLines_line (h : LF ∉ p) (start : Bool) :
    quoteLines isBreak start p = quoteLines (fun b => isBreak b && b != LF) start p := by
  induction p generalizing start with
  | nil => rfl
  | cons b p ih =>
    rw [List.mem_cons,not_or] at h
    have hb : (isBreak b && b != LF) = isBreak b := by simp [Ne.symm h.1]
    rw [quoteLines,quoteLines,hb,ih h.2]

/-- Nothing that could be part of a quoted "From " breaks a line. -/
def KeepsFrom (isBreak : Byte → Bool) : Prop := ∀ b ∈ GT :: FROM, isBreak b = false

instance (isBreak : Byte → Bool) : Decidable (KeepsFrom isBreak) := List.decidableBAll (isBreak · = false) (GT :: FROM)

theorem isPrefixOf_quoteLines (h : KeepsFrom isBreak) {q : Bytes} (hq : q ⊆ FROM) (s : Bytes) :
    q.isPrefixOf (quoteLines isBreak false s) = q.isPrefixOf s := by
  induction q generalizing s with
  | nil => simp
  | cons c q ih =>
    cases s with
    | nil => rfl
    | cons b s =>
      rw [List.cons_subset] at hq
      by_cases hcb : c = b
      · subst hcb
        have hc : isBreak c = false := h c (List.mem_cons_of_mem _ hq.1)
        simp only [quoteLines,Bool.false_and,Bool.false_eq_true,if_false,List.nil_append,List.isPrefixOf,hc,ih hq.2]
      · have hne : (c == b) = false := by simpa using hcb
        simp [quoteLines,List.isPrefixOf,hne]

theorem isFromLine_quoteLines (h : KeepsFrom isBreak) (s : Bytes) :
    isFromLine (quoteLines isBreak false s) = isFromLine s := by
  induction s with
  | nil => rfl
  | cons b s ih =>
    have hquote : quoteLines isBreak false (b :: s) = b :: quoteLines isBreak (isBreak b) s := rfl
    by_cases hb : b = GT
    · subst hb
      rw [hquote,isFromLine_gt,isFromLine_gt,h GT List.mem_cons_self,ih]
    · rw [hquote,isFromLine_other hb,isFromLine_other hb,← hquote,isPrefixOf_quoteLines h (List.Subset.refl _)]

/-- A line is read back as it was, up to what has been added further on in it. -/
theorem unquoteLine_quoteLines (h : KeepsFrom isBreak) (s : Bytes) :
    unquoteLine (quoteLines isBreak true s) = quoteLines isBreak false s := by
  have hfrom := isFromLine_quoteLines h s
  rw [quoteLines_true]
  split
  · rename_i hs
    rw [List.singleton_append,unquoteLine,if_pos ⟨rfl,hfrom.trans hs⟩]
  · rename_i hs
    rw [List.nil_append]
    cases hline : quoteLines isBreak false s with
    | nil => rfl
    | cons b rest =>
      rw [unquoteLine,if_neg]
      rintro ⟨rfl,hrest⟩
      rw [hline,isFromLine_gt,hrest] at hfrom
      exact hs hfrom.symm

theorem not_prefix_quoteLines (h : KeepsFrom isBreak) (s : Bytes) : FROM.isPrefixOf (quoteLines isBreak true s) = false := by
  rw [quoteLines_true]
  split
  · rfl
  · rename_i hs
    rw [List.nil_append,Bool.eq_false_iff]
    intro hprefix
    rw [← isFromLine_quoteLines h s] at hs
    exact hs (isFromLine_of_start hprefix)

theorem splitOn_quoteLines (hlf : isBreak LF = true) (s : Bytes) :
    (quoteLines isBreak true s).splitOn LF = (s.splitOn LF).map (quoteLines isBreak true) := by
  have hlines : ∀ p ∈ s.splitOn LF, LF ∉ p := fun p hp => notMem_of_mem_splitOn hp
  have hjoin := @quoteLines_intercalate isBreak (s.splitOn LF)
  rw [List.intercalate_splitOn,hlf] at hjoin
  rw [hjoin]
  refine List.splitOn_intercalate LF ?_ (by simp [List.splitOn_ne_nil])
  intro line hline
  obtain ⟨p,hp,rfl⟩ := List.mem_map.mp hline
  exact lf_notMem_quoteLines (hlines p hp) true

/-- Reading takes back what stands after line feeds, and nothing else. -/
theorem unquote_quoteLines (h : KeepsFrom isBreak) (hlf : isBreak LF = true) (s : Bytes) :
    [LF].intercalate (((quoteLines isBreak true s).splitOn LF).map unquoteLine) =
      quoteLines (fun b => isBreak b && b != LF) false s := by
  have hother : (isBreak LF && LF != LF) = false := by simp
  have hjoin := @quoteLines_intercalate (fun b => isBreak b && b != LF) (s.splitOn LF)
  rw [List.intercalate_splitOn,hother] at hjoin
  rw [hjoin,splitOn_quoteLines hlf,List.map_map]
  congr 1
  refine List.map_congr_left fun p hp => ?_
  rw [Function.comp_apply,unquoteLine_quoteLines h,quoteLines_line (notMem_of_mem_splitOn hp)]

end Lines

section Archive

theorem groupLines_append {lines : List Bytes} (h : ∀ line ∈ lines, FROM.isPrefixOf line = false) (rest : List Bytes) :
    groupLines (lines ++ rest) = (lines ++ (groupLines rest).1,(groupLines rest).2) := by
  induction lines with
  | nil => rfl
  | cons line lines ih =>
    rw [List.forall_mem_cons] at h
    rw [List.cons_append,groupLines,if_neg (by simp [h.1]),ih h.2]
    rfl

/-- A line that begins a message, and the text of the message. -/
structure Entry where
  header : Bytes
  text : Bytes

def Entry.bytes (e : Entry) : Bytes := e.header ++ LF :: e.text ++ [LF]

structure Entry.Delimited (e : Entry) : Prop where
  header : FROM.isPrefixOf e.header = true ∧ LF ∉ e.header
  text : ∀ line ∈ e.text.splitOn LF, FROM.isPrefixOf line = false

variable {entries : List Entry}

theorem groupLines_entries (h : ∀ e ∈ entries, e.Delimited) :
    groupLines (entries.flatMap fun e => e.header :: e.text.splitOn LF) = ([],entries.map fun e => e.text.splitOn LF) := by
  induction entries with
  | nil => rfl
  | cons e entries ih =>
    rw [List.forall_mem_cons] at h
    rw [List.flatMap_cons,List.cons_append,groupLines,if_pos h.1.header.1,groupLines_append h.1.text,ih h.2]
    simp

/-- An archive ends with the line feed of its last message. -/
theorem flatten_entries (h : entries ≠ []) :
    (entries.map Entry.bytes).flatten =
      [LF].intercalate (entries.flatMap fun e => e.header :: e.text.splitOn LF) ++ [LF] := by
  have hentry : ∀ e : Entry, [LF].intercalate (e.header :: e.text.splitOn LF) = e.header ++ LF :: e.text := by
    intro e
    rw [List.intercalate_cons_of_ne_nil (List.splitOn_ne_nil _ _),List.intercalate_splitOn,List.append_assoc]
    rfl
  rw [← intercalate_map_intercalate [LF] (fun e : Entry => e.header :: e.text.splitOn LF) (by simp)]
  induction entries with
  | nil => exact absurd rfl h
  | cons e entries ih =>
    by_cases hentries : entries = []
    · simp [hentries,hentry,Entry.bytes]
    · rw [List.map_cons,List.flatten_cons,ih hentries,List.map_cons,List.intercalate_cons_of_ne_nil (by simpa using hentries),
        hentry,Entry.bytes]
      simp only [List.append_assoc]

theorem readMbox_entries (h : ∀ e ∈ entries, e.Delimited) :
    readMbox (entries.map Entry.bytes).flatten =
      entries.map fun e => [LF].intercalate ((e.text.splitOn LF).map unquoteLine) := by
  by_cases hentries : entries = []
  · subst hentries
    rfl
  · have hlines : (entries.flatMap fun e => e.header :: e.text.splitOn LF) ≠ [] := by
      obtain ⟨e,he⟩ := List.exists_mem_of_ne_nil entries hentries
      intro hnil
      exact absurd (List.flatMap_eq_nil_iff.mp hnil e he) (by simp)
    have hclean : ∀ line ∈ entries.flatMap fun e => e.header :: e.text.splitOn LF, LF ∉ line := by
      intro line hline
      obtain ⟨e,he,hline⟩ := List.mem_flatMap.mp hline
      rcases List.mem_cons.mp hline with rfl | hline
      · exact (h e he).header.2
      · exact notMem_of_mem_splitOn hline
    rw [readMbox,flatten_entries hentries]
    simp only [List.getLast?_concat,if_true,List.dropLast_concat]
    rw [List.splitOn_intercalate LF hclean hlines,groupLines_entries h,List.map_map]
    rfl

end Archive

section Intact
variable {isBreak : Byte → Bool} {s : Bytes}

theorem length_quoteLines (start : Bool) (s : Bytes) : s.length ≤ (quoteLines isBreak start s).length := by
  induction s generalizing start with
  | nil => exact le_rfl
  | cons b s ih =>
    have := ih (isBreak b)
    simp only [quoteLines,List.length_append,List.length_cons]
    omega

/-- Nothing is added where no line that starts asks for it. -/
theorem quoteLines_eq_self_iff (start : Bool) (s : Bytes) : quoteLines isBreak start s = s ↔
    (start = true → isFromLine s = false) ∧ ∀ b t, b :: t <:+ s → isBreak b = true → isFromLine t = false := by
  induction s generalizing start with
  | nil => simp [quoteLines,isFromLine,FROM]
  | cons b s ih =>
    have hbreaks : (∀ c t, c :: t <:+ b :: s → isBreak c = true → isFromLine t = false) ↔
        (isBreak b = true → isFromLine s = false) ∧ ∀ c t, c :: t <:+ s → isBreak c = true → isFromLine t = false := by
      constructor
      · intro h
        exact ⟨h b s (List.suffix_refl _),fun c t ht => h c t (ht.trans (List.suffix_cons b s))⟩
      · rintro ⟨hhead,hrest⟩ c t ht hc
        rcases List.suffix_cons_iff.mp ht with heq | hsuffix
        · cases heq
          exact hhead hc
        · exact hrest c t hsuffix hc
    rw [hbreaks,← ih (isBreak b),quoteLines]
    by_cases hadd : (start && isFromLine (b :: s)) = true
    · have hlength := @length_quoteLines isBreak (isBreak b) s
      rw [if_pos hadd]
      rw [Bool.and_eq_true] at hadd
      refine iff_of_false (fun heq => ?_) (fun hboth => ?_)
      · have := congrArg List.length heq
        simp only [List.length_append,List.length_cons,List.length_nil] at this
        omega
      · simp [hboth.1 hadd.1] at hadd
    · rw [if_neg hadd]
      rw [Bool.and_eq_true,not_and,Bool.not_eq_true] at hadd
      simp only [List.nil_append,List.cons.injEq,true_and]
      exact ⟨fun heq => ⟨hadd,heq⟩,fun hboth => hboth.2⟩

end Intact
end JustMail.Foundation.Mboxrd
