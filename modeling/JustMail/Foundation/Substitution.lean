import Mathlib.Data.List.Infix

/-! Putting one text for another as `split` and `join` do it, in texts of which some segments are open to that. -/
namespace JustMail.Foundation.Substitution
variable {α : Type}

section Functions
variable [DecidableEq α]

/-- A part of a text, and whether it may be put in another way. -/
structure Segment (α : Type) where
  isOpen : Bool
  text : List α
  deriving DecidableEq

def content (l : List (Segment α)) : List α := l.flatMap (·.text)

def Segment.map (f : List α → List α) (s : Segment α) : Segment α := if s.isOpen then { s with text := f s.text } else s

/-- Wherever the pattern stands in the text, it is the whole of an open segment. -/
def OnlyWhole (pattern : List α) : List (Segment α) → Prop
  | [] => True
  | s :: l =>
    (∀ i < s.text.length, pattern <+: (s.text ++ content l).drop i → i = 0 ∧ s.isOpen = true ∧ s.text = pattern) ∧ OnlyWhole pattern l

instance decidableOnlyWhole (pattern : List α) : (l : List (Segment α)) → Decidable (OnlyWhole pattern l)
  | [] => .isTrue trivial
  | _ :: l => have := decidableOnlyWhole pattern l; inferInstanceAs (Decidable (_ ∧ _))

end Functions

section Replacing
variable [DecidableEq α] {sep old new piece s t w : List α} {c : α} {n : Nat}

end Replacing

section Segments

theorem content_cons (s : Segment α) (l : List (Segment α)) : content (s :: l) = s.text ++ content l := List.flatMap_cons

variable [DecidableEq α] {old new : List α} {l : List (Segment α)}

end Segments

section Guards
variable {q : α} {l l' : List (Segment α)} {s s' t t' x text pattern : List α} {f : List α → List α}

/-- Open segments stand between two signs that belong to their neighbours. -/
inductive Guarded (q : α) : List (Segment α) → Prop
  | nil : Guarded q []
  | closed (text : List α) {l : List (Segment α)} : Guarded q l → Guarded q (⟨false,text⟩ :: l)
  | value (before value after : List α) {l : List (Segment α)} : Guarded q (⟨false,q :: after⟩ :: l) →
      Guarded q (⟨false,before ++ [q]⟩ :: ⟨true,value⟩ :: ⟨false,q :: after⟩ :: l)

theorem Guarded.append (h : Guarded q l) (h' : Guarded q l') : Guarded q (l ++ l') := by
  induction h with
  | nil => exact h'
  | closed text _ ih => exact .closed text ih
  | value before value after _ ih => exact .value before value after ih

theorem Guarded.flatMap {β : Type} {ts : List β} {g : β → List (Segment α)} (h : ∀ t ∈ ts, Guarded q (g t)) :
    Guarded q (ts.flatMap g) := by
  induction ts with
  | nil => exact .nil
  | cons t ts ih =>
    rw [List.flatMap_cons]
    exact (h t List.mem_cons_self).append (ih fun u hu => h u (List.mem_cons_of_mem t hu))

/-- A text without the sign is found before it. -/
private theorem prefix_of_guard (hq : q ∉ pattern) (h : pattern <+: x ++ q :: s) : pattern <+: x := by
  obtain ⟨rest,hrest⟩ := h
  rcases List.append_eq_append_iff.mp hrest with ⟨w,rfl,-⟩ | ⟨w,rfl,hw⟩
  · exact List.prefix_append pattern w
  · cases w with
    | nil => rw [List.append_nil]
    | cons c w =>
      cases hw
      exact absurd (by simp) hq

/-- Texts that are the same up to a sign, or to their ends. -/
private def SameUpTo (q : α) (s s' : List α) : Prop := s = s' ∨ ∃ w r r', s = w ++ q :: r ∧ s' = w ++ q :: r'

private theorem SameUpTo.append (h : SameUpTo q s s') (x : List α) : SameUpTo q (x ++ s) (x ++ s') := by
  rcases h with rfl | ⟨w,r,r',rfl,rfl⟩
  · exact .inl rfl
  · exact .inr ⟨x ++ w,r,r',by simp,by simp⟩

private theorem SameUpTo.found (h : SameUpTo q s s') (hq : q ∉ pattern) (hfound : pattern <+: s') : pattern <+: s := by
  rcases h with rfl | ⟨w,r,r',rfl,rfl⟩
  · exact hfound
  · exact (prefix_of_guard hq hfound).trans (List.prefix_append w _)

private theorem Guarded.sameUpTo (h : Guarded q l) (f : List α → List α) : SameUpTo q (content l) (content (l.map (·.map f))) := by
  induction h with
  | nil => exact .inl rfl
  | closed text _ ih =>
    rw [List.map_cons,content_cons,content_cons]
    exact ih.append text
  | @value before value after l _ _ =>
    refine .inr ⟨before,value ++ content (⟨false,q :: after⟩ :: l),f value ++ content ((⟨false,q :: after⟩ :: l).map (·.map f)),?_,?_⟩
    · simp [content_cons]
    · simp [content_cons,Segment.map]

/-- What is found in a segment was found there before what follows was changed. -/
private theorem found_before {i : Nat} (hi : i < text.length) (hsame : SameUpTo q (text.drop i ++ t) (text.drop i ++ t'))
    (hq : q ∉ pattern) (hfound : pattern <+: (text ++ t').drop i) : pattern <+: (text ++ t).drop i := by
  rw [List.drop_append_of_le_length hi.le] at hfound ⊢
  exact hsame.found hq hfound

/-- Where new values do not have the pattern in them, it is still found for whole values only. -/
theorem OnlyWhole.map (hwhole : OnlyWhole pattern l) (h : Guarded q l) (hq : q ∉ pattern)
    (hf : ∀ s ∈ l, s.isOpen = true → f s.text = s.text ∨ ¬pattern <:+: f s.text) : OnlyWhole pattern (l.map (·.map f)) := by
  induction h with
  | nil => trivial
  | closed text hl ih =>
    obtain ⟨hnone,hrest⟩ := hwhole
    refine ⟨fun i hi hfound => ?_,ih hrest fun s hs => hf s (List.mem_cons_of_mem _ hs)⟩
    have hold := found_before hi ((hl.sameUpTo f).append (text.drop i)) hq hfound
    exact absurd (hnone i hi hold).2.1 Bool.false_ne_true
  | @value before value after l hl ih =>
    obtain ⟨hnone,hvalue,hrest⟩ := hwhole
    refine ⟨fun i hi hfound => ?_,fun i hi hfound => ?_,ih hrest fun s hs => hf s (List.mem_cons_of_mem _ (List.mem_cons_of_mem _ hs))⟩
    · -- the sign before the value is in the segment
      have hle : i ≤ before.length := by
        change i < (before ++ [q]).length at hi
        rw [List.length_append,List.length_singleton] at hi
        omega
      have hsame : ∀ u u', SameUpTo q ((before ++ [q]).drop i ++ u) ((before ++ [q]).drop i ++ u') := by
        intro u u'
        rw [List.drop_append_of_le_length hle,List.append_assoc,List.append_assoc]
        exact .inr ⟨before.drop i,u,u',rfl,rfl⟩
      exact absurd (hnone i hi (found_before hi (hsame _ _) hq hfound)).2.1 Bool.false_ne_true
    · -- the sign after it is in what follows
      change i < (f value).length at hi
      change pattern <+: (f value ++ content (⟨false,q :: after⟩ :: l.map (·.map f))).drop i at hfound
      change i = 0 ∧ true = true ∧ f value = pattern
      rcases hf ⟨true,value⟩ (by simp) rfl with hsame | hnew
      · dsimp only at hsame
        rw [hsame] at hi hfound ⊢
        exact hvalue i hi (found_before hi (.inr ⟨value.drop i,_,_,rfl,rfl⟩) hq hfound)
      · rw [List.drop_append_of_le_length hi.le] at hfound
        have hinside := prefix_of_guard hq hfound
        exact absurd (hinside.isInfix.trans (List.drop_suffix i _).isInfix) hnew

end Guards

section Exactness
variable [DecidableEq α] {q c d e : α} {l : List (Segment α)} {old new word w t u : List α}

end Exactness

end JustMail.Foundation.Substitution
