import Mathlib.Data.List.Basic

/-! Windows of one length that do not overlap, and events that fall into them. With so many events
to a window, an interval of that length has twice as many at most. -/
namespace JustMail.Foundation
variable {α : Type}

/-- Each event lies in its window, which has an end; windows that differ are apart, and no window has more than `limit` events. -/
structure Windowed (length limit : Nat) (time stop : α → Nat) (events : List α) : Prop where
  lived : ∀ e ∈ events, time e < stop e ∧ stop e ≤ time e + length
  apart : ∀ e ∈ events, ∀ e' ∈ events, stop e = stop e' ∨ stop e + length ≤ stop e' ∨ stop e' + length ≤ stop e
  limited : ∀ s, (events.filter fun e => stop e = s).length ≤ limit

variable {length limit : Nat} {time stop : α → Nat} {events : List α}

/-- Events of two windows. -/
private theorem length_le_of_two {s t : Nat} {l : List α} (h : ∀ e ∈ l, stop e = s ∨ stop e = t) :
    l.length ≤ (l.filter fun e => stop e = s).length + (l.filter fun e => stop e = t).length := by
  induction l with
  | nil => exact Nat.zero_le _
  | cons e l ih =>
    have hrest := ih fun e' he' => h e' (List.mem_cons_of_mem e he')
    have hmore : ∀ s, (l.filter fun e => stop e = s).length ≤ ((e :: l).filter fun e => stop e = s).length :=
      fun s => ((List.sublist_cons_self e l).filter _).length_le
    have hs := hmore s
    have ht := hmore t
    rcases h e List.mem_cons_self with he | he
    · rw [List.filter_cons_of_pos (by simpa using he),List.length_cons,List.length_cons]
      omega
    · rw [List.filter_cons_of_pos (p := fun e => decide (stop e = t)) (by simpa using he),List.length_cons,List.length_cons]
      omega

theorem Windowed.sublist {part : List α} (h : Windowed length limit time stop events) (hsub : part.Sublist events) :
    Windowed length limit time stop part where
  lived e he := h.lived e (hsub.subset he)
  apart e he e' he' := h.apart e (hsub.subset he) e' (hsub.subset he')
  limited s := Nat.le_trans (hsub.filter _).length_le (h.limited s)

/-- An interval that is no longer than a window meets two windows at most. -/
theorem Windowed.length_between (h : Windowed length limit time stop events) {a b : Nat} (hab : b ≤ a + length) :
    (events.filter fun e => a ≤ time e ∧ time e ≤ b).length ≤ 2*limit := by
  have hpart := h.sublist (List.filter_sublist (l := events) (p := fun e => decide (a ≤ time e ∧ time e ≤ b)))
  have hbetween : ∀ e ∈ events.filter (fun e => decide (a ≤ time e ∧ time e ≤ b)), a ≤ time e ∧ time e ≤ b := by
    intro e he
    simpa using (List.mem_filter.mp he).2
  generalize events.filter (fun e => decide (a ≤ time e ∧ time e ≤ b)) = part at hpart hbetween ⊢
  cases part with
  | nil => exact Nat.zero_le _
  | cons e₀ part =>
    by_cases hone : ∀ e ∈ e₀ :: part, stop e = stop e₀
    · have htwo := length_le_of_two (s := stop e₀) (t := stop e₀) fun e he => .inl (hone e he)
      have hlimit := hpart.limited (stop e₀)
      omega
    · obtain ⟨e₁,he₁,hne⟩ : ∃ e₁ ∈ e₀ :: part, stop e₁ ≠ stop e₀ := by simpa using hone
      have htwo : ∀ e ∈ e₀ :: part, stop e = stop e₀ ∨ stop e = stop e₁ := by
        intro e he
        -- of three windows, the last would begin after the end of the interval
        have h₀ := hpart.lived e₀ List.mem_cons_self
        have h₁ := hpart.lived e₁ he₁
        have hlived := hpart.lived e he
        have hb₀ := hbetween e₀ List.mem_cons_self
        have hb₁ := hbetween e₁ he₁
        have hb := hbetween e he
        have h₀₁ := hpart.apart e₀ List.mem_cons_self e₁ he₁
        have h₀e := hpart.apart e₀ List.mem_cons_self e he
        have h₁e := hpart.apart e₁ he₁ e he
        omega
      have hle := length_le_of_two htwo
      have hlimit := hpart.limited (stop e₀)
      have hlimit₁ := hpart.limited (stop e₁)
      omega

theorem Windowed.length_within (h : Windowed length limit time stop events) {e₀ : α} (he₀ : e₀ ∈ events) :
    (events.filter fun e => stop e₀ ≤ time e + length ∧ time e < stop e₀).length ≤ limit := by
  have hone : ∀ e ∈ events, stop e₀ ≤ time e + length → time e < stop e₀ → stop e = stop e₀ := by
    intro e he hopen hclosed
    have hlived := h.lived e he
    have hapart := h.apart e he e₀ he₀
    omega
  have hsame : (events.filter fun e => stop e₀ ≤ time e + length ∧ time e < stop e₀) =
      (events.filter fun e => stop e = stop e₀).filter fun e => stop e₀ ≤ time e + length ∧ time e < stop e₀ := by
    rw [List.filter_filter]
    refine List.filter_congr fun e he => ?_
    by_cases hwithin : stop e₀ ≤ time e + length ∧ time e < stop e₀
    · simp [hwithin,hone e he hwithin.1 hwithin.2]
    · simp [hwithin]
  rw [hsame]
  exact Nat.le_trans (List.length_filter_le _ _) (h.limited (stop e₀))

/-- One more event, after which its window has `limit` events at most. -/
theorem Windowed.snoc {e : α} (h : Windowed length limit time stop events) (hlived : time e < stop e ∧ stop e ≤ time e + length)
    (hapart : ∀ e' ∈ events, stop e' = stop e ∨ stop e' + length ≤ stop e)
    (hlimit : (events.filter fun e' => stop e' = stop e).length < limit) :
    Windowed length limit time stop (events ++ [e]) := by
  refine ⟨fun e' he' => ?_,fun e₁ he₁ e₂ he₂ => ?_,fun s => ?_⟩
  · rcases List.mem_append.mp he' with hold | hnew
    · exact h.lived e' hold
    · rw [List.mem_singleton.mp hnew]
      exact hlived
  · rcases List.mem_append.mp he₁ with hold₁ | hnew₁ <;> rcases List.mem_append.mp he₂ with hold₂ | hnew₂
    · exact h.apart e₁ hold₁ e₂ hold₂
    · rw [List.mem_singleton.mp hnew₂]
      exact (hapart e₁ hold₁).imp_right .inl
    · rw [List.mem_singleton.mp hnew₁]
      exact (hapart e₂ hold₂).imp Eq.symm .inr
    · rw [List.mem_singleton.mp hnew₁,List.mem_singleton.mp hnew₂]
      exact .inl rfl
  · have hlimited := h.limited s
    rw [List.filter_append,List.length_append]
    by_cases hs : stop e = s
    · subst hs
      rw [List.filter_cons_of_pos (by simp)]
      exact hlimit
    · rw [List.filter_cons_of_neg (by simpa using hs)]
      exact hlimited

end JustMail.Foundation
