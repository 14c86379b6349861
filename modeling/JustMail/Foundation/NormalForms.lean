import Mathlib.Data.List.DropRight

/-! Normal forms of texts: texts trimmed at both ends, and a loop that rewrites a value
until nothing changes. -/
namespace JustMail.Foundation
variable {α : Type}

section Trimming
variable {p : α → Bool} {s t : List α}

theorem rdropWhile_cons (p : α → Bool) (c : α) (s : List α) :
    (c :: s).rdropWhile p = if s.rdropWhile p = [] ∧ p c = true then [] else c :: s.rdropWhile p := by
  simp only [List.rdropWhile,List.reverse_cons,List.dropWhile_append,List.isEmpty_iff,List.reverse_eq_nil_iff]
  by_cases hs : s.reverse.dropWhile p = []
  · cases hc : p c with
    | true => simp [hs,hc]
    | false => simp [hc]
  · simp [hs]

/-- The two ends are trimmed in either order. -/
theorem dropWhile_rdropWhile (p : α → Bool) (s : List α) : (s.rdropWhile p).dropWhile p = (s.dropWhile p).rdropWhile p := by
  induction s with
  | nil => rfl
  | cons c s ih =>
    rw [rdropWhile_cons]
    cases hc : p c with
    | true =>
      rw [List.dropWhile_cons_of_pos hc,← ih]
      split
      · rename_i hnil
        rw [hnil.1]
      · exact List.dropWhile_cons_of_pos hc
    | false =>
      have hneg : ¬ p c = true := by simp [hc]
      have hrest : ¬ (s.rdropWhile p = [] ∧ p c = true) := fun h => hneg h.2
      rw [← hc,if_neg hrest,List.dropWhile_cons_of_neg hneg,List.dropWhile_cons_of_neg hneg,rdropWhile_cons,if_neg hrest]

/-- What ends in no blank is no shorter without the blanks at its end. -/
theorem rdropWhile_append (hne : s ≠ []) (hlast : ∀ c ∈ s.getLast?, p c = false) :
    (s ++ t).rdropWhile p = s ++ t.rdropWhile p := by
  induction s with
  | nil => exact absurd rfl hne
  | cons c s ih =>
    rw [List.cons_append,rdropWhile_cons]
    cases s with
    | nil =>
      have hc : p c = false := hlast c rfl
      rw [if_neg (by simp [hc])]
      rfl
    | cons d s =>
      rw [ih (by simp) (by simpa using hlast),if_neg (by simp)]
      rfl

theorem rdropWhile_append_of_ne_nil (s : List α) (ht : t.rdropWhile p ≠ []) : (s ++ t).rdropWhile p = s ++ t.rdropWhile p := by
  induction s with
  | nil => rfl
  | cons c s ih => rw [List.cons_append,rdropWhile_cons,ih,if_neg (by simp [ht]),List.cons_append]

theorem rdropWhile_append_of_forall (s : List α) (ht : ∀ c ∈ t, p c = true) : (s ++ t).rdropWhile p = s.rdropWhile p := by
  rw [List.rdropWhile,List.reverse_append,List.dropWhile_append_of_pos (by simpa using ht),List.rdropWhile]

/-- Neither end is a blank. -/
structure TrimmedEnds (p : α → Bool) (s : List α) : Prop where
  head : ∀ c ∈ s.head?, p c = false
  last : ∀ c ∈ s.getLast?, p c = false

/-- What a trimmed text ends in, from a symbol that is no blank on. -/
theorem TrimmedEnds.ending (h : TrimmedEnds p s) (hsuffix : t <:+ s) (hhead : ∀ c ∈ t.head?, p c = false) : TrimmedEnds p t where
  head := hhead
  last := by
    intro c hc
    obtain ⟨before,rfl⟩ := hsuffix
    apply h.last
    cases t with
    | nil => simp at hc
    | cons d t => rwa [List.getLast?_append_of_ne_nil _ (by simp)]

end Trimming

section Loop
variable (f : α → α)

/-- How `do { prev = s; s = f(s) } while (s !== prev)` ends. -/
inductive LoopsTo : α → α → Prop
  | stop {s} : f s = s → LoopsTo s s
  | again {s t} : f s ≠ s → LoopsTo (f s) t → LoopsTo s t

variable {f} {s t u : α}

theorem LoopsTo.fixed (h : LoopsTo f s t) : f t = t := by
  induction h with
  | stop h => exact h
  | again _ _ ih => exact ih

theorem LoopsTo.unique (h : LoopsTo f s t) (h' : LoopsTo f s u) : t = u := by
  induction h with
  | stop h =>
    cases h' with
    | stop => rfl
    | again hne => exact absurd h hne
  | again hne _ ih =>
    cases h' with
    | stop h => exact absurd h hne
    | again _ h' => exact ih h'

/-- The loop may be entered a round later. -/
theorem LoopsTo.of_step (h : LoopsTo f (f s) t) : LoopsTo f s t := by
  by_cases hs : f s = s
  · rwa [hs] at h
  · exact .again hs h

/-- What a round keeps, the loop keeps. -/
theorem LoopsTo.preserves {P : α → Prop} (hstep : ∀ s, P s → P (f s)) (h : LoopsTo f s t) (hs : P s) : P t := by
  induction h with
  | stop _ => exact hs
  | again _ _ ih => exact ih (hstep _ hs)

end Loop
end JustMail.Foundation
