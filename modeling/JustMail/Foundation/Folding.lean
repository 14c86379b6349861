import Mathlib.Data.List.Basic
import Mathlib.Data.List.Infix
import Mathlib.Data.List.ModifyLast

/-! Soft-wrapping of long lines over an arbitrary alphabet. A logical line becomes
physical lines of bounded width, each continuation marked by one blank; reading
joins a line that starts with a blank to the line before it. -/
namespace JustMail.Foundation
variable {α : Type}

/-- Pieces of `k` symbols, the last one possibly shorter. The loop consumes at
least one symbol a round, so the length is enough fuel. -/
def chunkLoop (k : Nat) : Nat → List α → List (List α)
  | 0, _ => []
  | fuel+1, s => if s.isEmpty then [] else s.take k :: chunkLoop k fuel (s.drop k)

def chunksOf (k : Nat) (s : List α) : List (List α) := chunkLoop k s.length s

/-- Physical lines of a logical line: `first` symbols, then a blank and up to
`rest` symbols each. A line that fits is left alone. -/
def foldedLines (blank : α) (first rest : Nat) (line : List α) : List (List α) :=
  if line.length ≤ first then [line]
  else line.take first :: (chunksOf rest (line.drop first)).map (blank :: ·)

section Reading
variable [DecidableEq α] (cr lf : α)

/-- `text.replace(/\r\n/g, "\n")`. -/
def pairToLf : List α → List α
  | [] => []
  | [c] => [c]
  | c :: d :: s => if c = cr ∧ d = lf then lf :: pairToLf s else c :: pairToLf (d :: s)

/-- Either kind of line end counts as one break. -/
def normalizeBreaks (text : List α) : List α :=
  (pairToLf cr lf text).map fun c => if c = cr then lf else c

def splitLines (text : List α) : List (List α) := (normalizeBreaks cr lf text).splitOn lf

/-- One round of the unfolding loop. -/
def unfoldStep (isBlank : α → Bool) (out : List (List α)) (line : List α) : List (List α) :=
  if (line.head?.any isBlank) && !out.isEmpty then out.modifyLast (· ++ line.tail) else out ++ [line]

def unfoldAll (isBlank : α → Bool) (physical : List (List α)) : List (List α) :=
  physical.foldl (unfoldStep isBlank) []

end Reading

private theorem chunkLoop_flatten (k : Nat) (hk : 0 < k) (fuel : Nat) (s : List α) (h : s.length ≤ fuel) :
    (chunkLoop k fuel s).flatten = s := by
  induction fuel generalizing s with
  | zero =>
    have : s = [] := List.length_eq_zero_iff.mp (by omega)
    simp [chunkLoop,this]
  | succ fuel ih =>
    cases s with
    | nil => simp [chunkLoop]
    | cons c s =>
      have hd : ((c :: s).drop k).length ≤ fuel := by
        simp only [List.length_drop,List.length_cons] at h ⊢
        omega
      simp only [chunkLoop,List.isEmpty_cons,Bool.false_eq_true,if_false,List.flatten_cons,ih _ hd]
      exact List.take_append_drop k (c :: s)

/-- Cutting into pieces loses nothing. -/
theorem chunksOf_flatten {k : Nat} (hk : 0 < k) (s : List α) : (chunksOf k s).flatten = s :=
  chunkLoop_flatten k hk s.length s le_rfl

theorem mem_of_mem_foldedLines {blank : α} {first rest : Nat} (hr : 0 < rest) {line p : List α} {c : α}
    (hp : p ∈ foldedLines blank first rest line) (hc : c ∈ p) : c = blank ∨ c ∈ line := by
  unfold foldedLines at hp
  split at hp
  · rw [List.mem_singleton] at hp
    exact Or.inr (hp ▸ hc)
  · rcases List.mem_cons.mp hp with rfl | hp
    · exact Or.inr (List.mem_of_mem_take hc)
    · obtain ⟨q,hq,rfl⟩ := List.mem_map.mp hp
      rcases List.mem_cons.mp hc with rfl | hc
      · exact Or.inl rfl
      · have hf : c ∈ (chunksOf rest (line.drop first)).flatten := List.mem_flatten.mpr ⟨q,hq,hc⟩
        rw [chunksOf_flatten hr] at hf
        exact Or.inr (List.mem_of_mem_drop hf)

theorem mem_intercalate {sep : List α} {ps : List (List α)} {c : α} (h : c ∈ sep.intercalate ps) :
    c ∈ sep ∨ ∃ p ∈ ps, c ∈ p := by
  induction ps with
  | nil => simp at h
  | cons p ps ih =>
    by_cases hps : ps = []
    · subst hps
      rw [List.intercalate_singleton] at h
      exact Or.inr ⟨p,by simp,h⟩
    · rw [List.intercalate_cons_of_ne_nil hps,List.mem_append,List.mem_append] at h
      rcases h with (h | h) | h
      · exact Or.inr ⟨p,by simp,h⟩
      · exact Or.inl h
      · rcases ih h with h | ⟨q,hq,hc⟩
        · exact Or.inl h
        · exact Or.inr ⟨q,by simp [hq],hc⟩

theorem intercalate_append (sep : List α) {ps qs : List (List α)} (hp : ps ≠ []) (hq : qs ≠ []) :
    sep.intercalate (ps ++ qs) = sep.intercalate ps ++ sep ++ sep.intercalate qs := by
  induction ps with
  | nil => exact absurd rfl hp
  | cons p ps ih =>
    by_cases hps : ps = []
    · subst hps
      rw [List.singleton_append,List.intercalate_cons_of_ne_nil hq,List.intercalate_singleton]
    · rw [List.cons_append,List.intercalate_cons_of_ne_nil (by simp [hps]),ih hps,
        List.intercalate_cons_of_ne_nil hps]
      simp only [List.append_assoc]

/-- Joining joined groups is joining all their members. -/
theorem intercalate_map_intercalate {β : Type} (sep : List α) (f : β → List (List α)) (hf : ∀ b, f b ≠ [])
    (bs : List β) : sep.intercalate (bs.map fun b => sep.intercalate (f b)) = sep.intercalate (bs.flatMap f) := by
  induction bs with
  | nil => rfl
  | cons b bs ih =>
    by_cases hbs : bs = []
    · simp [hbs]
    · have hne : bs.flatMap f ≠ [] := by
        obtain ⟨b',hb'⟩ := List.exists_mem_of_ne_nil bs hbs
        exact fun he => hf b' (List.flatMap_eq_nil_iff.mp he b' hb')
      rw [List.map_cons,List.intercalate_cons_of_ne_nil (by simp [hbs]),ih,List.flatMap_cons,
        intercalate_append sep (hf b) hne]

/-- Neighbours among the parts stay together, and what follows begins with the separator. -/
theorem intercalate_neighbours (sep : List α) {ps qs : List (List α)} (h : ps <:+: qs) (hne : ps ≠ []) :
    ∃ before after, sep.intercalate qs = before ++ sep.intercalate ps ++ after ∧ (after = [] ∨ sep <+: after) := by
  obtain ⟨l,r,rfl⟩ := h
  have hright : ∃ after, sep.intercalate (ps ++ r) = sep.intercalate ps ++ after ∧ (after = [] ∨ sep <+: after) := by
    by_cases hr : r = []
    · exact ⟨[],by simp [hr],.inl rfl⟩
    · refine ⟨sep ++ sep.intercalate r,?_,.inr (List.prefix_append sep _)⟩
      rw [intercalate_append sep hne hr,List.append_assoc]
  obtain ⟨after,hafter,hsep⟩ := hright
  rw [List.append_assoc]
  by_cases hl : l = []
  · exact ⟨[],after,by simpa [hl] using hafter,hsep⟩
  · refine ⟨sep.intercalate l ++ sep,after,?_,hsep⟩
    rw [intercalate_append sep hl (List.append_ne_nil_of_left_ne_nil hne r),hafter,List.append_assoc,List.append_assoc,
      List.append_assoc]

/-- The separator is in none of the parts. -/
theorem notMem_of_mem_splitOn [DecidableEq α] {sep : α} {s p : List α} (h : p ∈ s.splitOn sep) : sep ∉ p := by
  induction s generalizing p with
  | nil => simp_all
  | cons c s ih =>
    rw [List.splitOn_cons_eq_if_modifyHead] at h
    split at h
    · rcases List.mem_cons.mp h with rfl | h
      · exact List.not_mem_nil
      · exact ih h
    · rename_i hc
      obtain ⟨q,qs,hs⟩ := List.exists_cons_of_ne_nil (List.splitOn_ne_nil sep s)
      rw [hs,List.modifyHead_cons] at h
      rw [hs] at ih
      rcases List.mem_cons.mp h with rfl | h
      · have hne : sep ≠ c := by
          rintro rfl
          simp at hc
        rw [List.mem_cons,not_or]
        exact ⟨hne,ih List.mem_cons_self⟩
      · exact ih (List.mem_cons_of_mem q h)

section Joined
variable [DecidableEq α] {cr lf : α}

private theorem pairToLf_clean_append {s : List α} (hs : cr ∉ s) (t : List α) :
    pairToLf cr lf (s ++ t) = s ++ pairToLf cr lf t := by
  induction s with
  | nil => rfl
  | cons c s ih =>
    rw [List.mem_cons,not_or] at hs
    cases hst : s ++ t with
    | nil =>
      obtain ⟨rfl,rfl⟩ := List.append_eq_nil_iff.mp hst
      rfl
    | cons d u =>
      rw [List.cons_append,hst,pairToLf,if_neg (fun h => hs.1 h.1.symm),← hst,ih hs.2]
      rfl

theorem pairToLf_joined {ps : List (List α)} (h : ∀ p ∈ ps, cr ∉ p) :
    pairToLf cr lf ([cr,lf].intercalate ps) = [lf].intercalate ps := by
  induction ps with
  | nil => rfl
  | cons p ps ih =>
    cases ps with
    | nil =>
      have hp : pairToLf cr lf (p ++ []) = p ++ pairToLf cr lf [] := pairToLf_clean_append (h p (by simp)) []
      simpa [pairToLf] using hp
    | cons q ps =>
      rw [List.intercalate_cons_cons,List.intercalate_cons_cons,List.append_assoc,
        pairToLf_clean_append (h p (by simp))]
      change p ++ pairToLf cr lf (cr :: lf :: [cr,lf].intercalate (q :: ps)) = _
      rw [pairToLf,if_pos ⟨rfl,rfl⟩,ih fun q hq => h q (by simp [hq]),List.append_assoc]
      rfl

/-- Lines joined by CR LF are read back as they were, when none holds a break itself. -/
theorem splitLines_joined (hcl : cr ≠ lf) {ps : List (List α)} (hne : ps ≠ [])
    (h : ∀ p ∈ ps, cr ∉ p ∧ lf ∉ p) : splitLines cr lf ([cr,lf].intercalate ps) = ps := by
  have hclean : ∀ c ∈ [lf].intercalate ps, (if c = cr then lf else c) = c := by
    intro c hc
    refine if_neg ?_
    rintro rfl
    rcases mem_intercalate hc with hm | ⟨p,hp,hm⟩
    · exact hcl (List.mem_singleton.mp hm)
    · exact (h p hp).1 hm
  have hmap : ([lf].intercalate ps).map (fun c => if c = cr then lf else c) = [lf].intercalate ps := by
    rw [List.map_congr_left hclean,List.map_id']
  rw [splitLines,normalizeBreaks,pairToLf_joined fun p hp => (h p hp).1,hmap]
  exact List.splitOn_intercalate lf (fun p hp => (h p hp).2) hne

end Joined

section Unfolding
variable {isBlank : α → Bool} {blank : α}

private theorem unfoldStep_push {out : List (List α)} {line : List α} (h : ∀ c ∈ line.head?, isBlank c = false) :
    unfoldStep isBlank out line = out ++ [line] := by
  cases line with
  | nil => simp [unfoldStep]
  | cons c line => simp [unfoldStep,h c rfl]

private theorem unfoldStep_append (hb : isBlank blank = true) (out : List (List α)) (x p : List α) :
    unfoldStep isBlank (out ++ [x]) (blank :: p) = out ++ [x ++ p] := by
  simp [unfoldStep,hb,List.modifyLast_concat]

private theorem unfold_continuations (hb : isBlank blank = true) (out : List (List α))
    (x : List α) (ps : List (List α)) :
    (ps.map (blank :: ·)).foldl (unfoldStep isBlank) (out ++ [x]) = out ++ [x ++ ps.flatten] := by
  induction ps generalizing x with
  | nil => simp
  | cons p ps ih =>
    rw [List.map_cons,List.foldl_cons,unfoldStep_append hb,ih]
    simp

/-- The physical lines of one logical line are joined again. -/
theorem unfold_foldedLines {first rest : Nat} (hb : isBlank blank = true) (hf : 0 < first)
    (hr : 0 < rest) (out : List (List α)) {line : List α} (h : ∀ c ∈ line.head?, isBlank c = false) :
    (foldedLines blank first rest line).foldl (unfoldStep isBlank) out = out ++ [line] := by
  unfold foldedLines
  split
  · simp [unfoldStep_push h]
  · have ht : ∀ c ∈ (line.take first).head?, isBlank c = false := by
      intro c hc
      apply h c
      rwa [List.head?_take,if_neg (by omega)] at hc
    rw [List.foldl_cons,unfoldStep_push ht,unfold_continuations hb,chunksOf_flatten hr,
      List.take_append_drop]

theorem unfold_folded_list {first rest : Nat} (hb : isBlank blank = true) (hf : 0 < first)
    (hr : 0 < rest) (out lines : List (List α)) (h : ∀ line ∈ lines, ∀ c ∈ line.head?, isBlank c = false) :
    (lines.flatMap (foldedLines blank first rest)).foldl (unfoldStep isBlank) out = out ++ lines := by
  induction lines generalizing out with
  | nil => simp
  | cons line lines ih =>
    rw [List.flatMap_cons,List.foldl_append,unfold_foldedLines hb hf hr out (h line (by simp)),
      ih _ fun l hl => h l (by simp [hl])]
    simp

theorem foldedLines_ne_nil (blank : α) (first rest : Nat) (line : List α) :
    foldedLines blank first rest line ≠ [] := by
  unfold foldedLines
  split <;> simp

variable [DecidableEq α] {cr lf : α} {isBlank : α → Bool} {blank : α} {first rest : Nat}

/-- Folding every line, joining with CR LF and ending with CR LF is undone by
reading: the lines come back, followed by the empty line after the last break. -/
theorem unfold_fold (hcl : cr ≠ lf) (hb : isBlank blank = true) (hcb : blank ≠ cr) (hlb : blank ≠ lf)
    (hf : 0 < first) (hr : 0 < rest) {lines : List (List α)} (hne : lines ≠ [])
    (hbreak : ∀ line ∈ lines, cr ∉ line ∧ lf ∉ line)
    (hhead : ∀ line ∈ lines, ∀ c ∈ line.head?, isBlank c = false) :
    unfoldAll isBlank (splitLines cr lf
      ([cr,lf].intercalate (lines.map fun l => [cr,lf].intercalate (foldedLines blank first rest l)) ++ [cr,lf])) =
      lines ++ [[]] := by
  have hphys : lines.flatMap (foldedLines blank first rest) ≠ [] := by
    obtain ⟨l,hl⟩ := List.exists_mem_of_ne_nil lines hne
    intro he
    exact foldedLines_ne_nil blank first rest l (List.flatMap_eq_nil_iff.mp he l hl)
  have htext : [cr,lf].intercalate (lines.map fun l => [cr,lf].intercalate (foldedLines blank first rest l)) ++
      [cr,lf] = [cr,lf].intercalate (lines.flatMap (foldedLines blank first rest) ++ [[]]) := by
    rw [intercalate_map_intercalate _ _ (foldedLines_ne_nil blank first rest),
      intercalate_append _ hphys (by simp)]
    simp
  rw [htext,splitLines_joined hcl (by simp)]
  · rw [unfoldAll,List.foldl_append,unfold_folded_list hb hf hr [] lines hhead]
    simp [unfoldStep]
  · intro p hp
    rcases List.mem_append.mp hp with hp | hp
    · obtain ⟨l,hl,hp⟩ := List.mem_flatMap.mp hp
      constructor
      · intro hc
        rcases mem_of_mem_foldedLines hr hp hc with h | h
        · exact hcb h.symm
        · exact (hbreak l hl).1 h
      · intro hc
        rcases mem_of_mem_foldedLines hr hp hc with h | h
        · exact hlb h.symm
        · exact (hbreak l hl).2 h
    · simp_all

end Unfolding
end JustMail.Foundation
