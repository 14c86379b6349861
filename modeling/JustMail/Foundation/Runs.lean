import Mathlib.Data.List.Basic
import Mathlib.Order.Basic

/-! Runs of a step function: the states that allowed steps lead to, and the two rules
by which a property of single steps becomes one of whole runs. -/
namespace JustMail.Foundation
variable {σ α : Type} {actions : List α}

/-- `Run step allowed s t`: steps, each allowed where it is taken, lead from `s` to `t`. -/
inductive Run (step : σ → α → Option σ) (allowed : σ → α → Prop) : σ → σ → Prop where
  | refl (s : σ) : Run step allowed s s
  | tail {s t u : σ} (a : α) : Run step allowed s t → allowed t a → step t a = some u → Run step allowed s u

variable {step : σ → α → Option σ} {allowed : σ → α → Prop} {s t u : σ}

theorem Run.trans (h : Run step allowed s t) (hs : Run step allowed t u) : Run step allowed s u := by
  induction hs with
  | refl => exact h
  | tail a _ ha hstep ih => exact ih.tail a ha hstep

/-- What every allowed step preserves holds along every run. -/
theorem Run.invariant {inv : σ → Prop}
    (hstep : ∀ s a t, inv s → allowed s a → step s a = some t → inv t)
    (h : Run step allowed s t) (hs : inv s) : inv t := by
  induction h with
  | refl => exact hs
  | tail a _ ha he ih => exact hstep _ a _ ih ha he

theorem Run.relates {inv : σ → Prop} {rel : σ → σ → Prop} (hrefl : ∀ s, rel s s)
    (htrans : ∀ s t u, rel s t → rel t u → rel s u)
    (hinv : ∀ s a t, inv s → allowed s a → step s a = some t → inv t)
    (hstep : ∀ s a t, inv s → allowed s a → step s a = some t → rel s t)
    (h : Run step allowed s t) (hs : inv s) : rel s t := by
  induction h with
  | refl => exact hrefl s
  | tail a hrun ha he ih => exact htrans _ _ _ ih (hstep _ a _ (hrun.invariant hinv hs) ha he)

/-- Steps taken one after the other, up to the first that is not allowed. -/
def runActions (step : σ → α → Option σ) (allowed : σ → α → Prop) [∀ s a, Decidable (allowed s a)] (s : σ)
    (actions : List α) : Option σ :=
  actions.foldlM (fun s a => if allowed s a then step s a else none) s

theorem runActions_cons [∀ s a, Decidable (allowed s a)] {a : α}
    (h : runActions step allowed s (a :: actions) = some t) :
    ∃ m, allowed s a ∧ step s a = some m ∧ runActions step allowed m actions = some t := by
  rw [runActions,List.foldlM_cons] at h
  obtain ⟨m,hm,hrest⟩ := Option.bind_eq_some_iff.mp h
  split at hm
  · rename_i ha
    exact ⟨m,ha,hm,hrest⟩
  · simp at hm

theorem Run.of_actions [∀ s a, Decidable (allowed s a)]
    (h : runActions step allowed s actions = some t) : Run step allowed s t := by
  induction actions generalizing s with
  | nil =>
    obtain rfl : s = t := by simpa [runActions] using h
    exact .refl s
  | cons a actions ih =>
    obtain ⟨m,ha,hm,hrest⟩ := runActions_cons h
    have hfirst : Run step allowed s m := .tail a (.refl s) ha hm
    exact hfirst.trans (ih hrest)

/-- What every listed step preserves holds after the list. -/
theorem runActions_invariant [∀ s a, Decidable (allowed s a)] (inv : σ → Prop)
    (hstep : ∀ a ∈ actions, ∀ s t, inv s → step s a = some t → inv t)
    (h : runActions step allowed s actions = some t) (hs : inv s) : inv t := by
  induction actions generalizing s with
  | nil =>
    obtain rfl : s = t := by simpa [runActions] using h
    exact hs
  | cons a actions ih =>
    obtain ⟨m,-,hm,hrest⟩ := runActions_cons h
    exact ih (fun b hb => hstep b (List.mem_cons_of_mem a hb)) hrest (hstep a List.mem_cons_self s m hs hm)

/-- Of several parties, one has moved. -/
theorem getElem?_set_of_some {l : List α} {i : Nat} {a : α} (h : l[i]? = some a) (b : α) (j : Nat) :
    (l.set i b)[j]? = if j = i then some b else l[j]? := by
  obtain ⟨hi,-⟩ := List.getElem?_eq_some_iff.mp h
  rw [List.getElem?_set]
  by_cases hij : i = j
  · subst hij
    simp [hi]
  · simp [hij,Ne.symm hij]

/-- A party that is not the one that has moved. -/
theorem getElem?_set_other {l : List α} {i j : Nat} {a b : α} (h : l[i]? = some a) (h' : l[j]? = some b) (hne : b ≠ a) (c : α) :
    (l.set i c)[j]? = some b := by
  have hj : j ≠ i := by
    rintro rfl
    exact hne (Option.some.inj (h'.symm.trans h))
  exact (getElem?_set_of_some h c j).trans ((if_neg hj).trans h')

/-- One more party has come in. -/
theorem getElem?_append_new (l : List α) (a : α) (j : Nat) : (l ++ [a])[j]? = if j = l.length then some a else l[j]? := by
  by_cases hj : j = l.length
  · simp [hj]
  · rw [if_neg hj]
    by_cases hlt : j < l.length
    · rw [List.getElem?_append_left hlt]
    · rw [List.getElem?_eq_none (by simp; omega),List.getElem?_eq_none (by omega)]

section Simulation
variable {τ β γ : Type} [Preorder γ] {first : σ → α → σ × β} {second : τ → α → τ × β}

def replies (step : σ → α → σ × β) (s : σ) : List α → List β
  | [] => []
  | a :: calls => (step s a).2 :: replies step (step s a).1 calls

/-- Two machines that a relation keeps together give the same replies. The relation may
depend on a clock that the calls carry and that never goes back. -/
theorem replies_eq (clock : α → γ) (rel : γ → σ → τ → Prop)
    (hstep : ∀ now s t a, rel now s t → now ≤ clock a →
      rel (clock a) (first s a).1 (second t a).1 ∧ (first s a).2 = (second t a).2)
    {now : γ} {s : σ} {t : τ} (h : rel now s t) {calls : List α} (hclock : (now :: calls.map clock).Pairwise (· ≤ ·)) :
    replies first s calls = replies second t calls := by
  induction calls generalizing now s t with
  | nil => rfl
  | cons a calls ih =>
    obtain ⟨hnow,hrest⟩ := List.pairwise_cons.mp hclock
    obtain ⟨hrel,hreply⟩ := hstep now s t a h (hnow _ List.mem_cons_self)
    rw [replies,replies,hreply,ih hrel hrest]

end Simulation

/-! Runs with the actions that they take, so that the states on the way can be spoken of. -/
section Traces
variable {actions : List α}

/-- `Trace step allowed s actions t`: the actions, each allowed where it is taken, lead from `s` to `t`. -/
inductive Trace (step : σ → α → Option σ) (allowed : σ → α → Prop) : σ → List α → σ → Prop where
  | nil (s : σ) : Trace step allowed s [] s
  | snoc {s t u : σ} {actions : List α} (a : α) : Trace step allowed s actions t → allowed t a → step t a = some u →
      Trace step allowed s (actions ++ [a]) u

/-- What every allowed step preserves holds along every trace. -/
theorem Trace.invariant {inv : σ → Prop} (hstep : ∀ s a t, inv s → allowed s a → step s a = some t → inv t)
    (h : Trace step allowed s actions t) (hs : inv s) : inv t := by
  induction h with
  | nil => exact hs
  | snoc a _ ha he ih => exact hstep _ a _ ih ha he

/-- Something was so in a state on the way. -/
def OnTheWay (step : σ → α → Option σ) (allowed : σ → α → Prop) (s : σ) (actions : List α) (p : σ → Prop) : Prop :=
  ∃ before after moment, actions = before ++ after ∧ Trace step allowed s before moment ∧ p moment

theorem OnTheWay.snoc {p : σ → Prop} (h : OnTheWay step allowed s actions p) (a : α) : OnTheWay step allowed s (actions ++ [a]) p := by
  obtain ⟨before,after,moment,hactions,htrace,hp⟩ := h
  exact ⟨before,after ++ [a],moment,by rw [hactions,List.append_assoc],htrace,hp⟩

theorem Trace.onTheWay {p : σ → Prop} (h : Trace step allowed s actions t) (hp : p t) : OnTheWay step allowed s actions p :=
  ⟨actions,[],t,(List.append_nil _).symm,h,hp⟩

end Traces

section Outcomes
variable {ε τ : Type} {r : Except ε σ} {a b : σ} {P Q : Prop}

/-- The result is `a` where `P` holds, and an error elsewhere. -/
structure Succeeds (r : Except ε σ) (a : σ) (P : Prop) : Prop where
  ok : P → r = .ok a
  error : ¬P → ∃ e, r = .error e

theorem Succeeds.congr (h : Succeeds r a P) (hiff : P ↔ Q) : Succeeds r a Q :=
  ⟨fun hq => h.ok (hiff.mpr hq),fun hq => h.error fun hp => hq (hiff.mp hp)⟩

theorem Succeeds.bind {f : σ → Except ε τ} {c : τ} (h : Succeeds r a P) (hf : P → Succeeds (f a) c Q) :
    Succeeds (r >>= f) c (P ∧ Q) := by
  constructor
  · rintro ⟨hp,hq⟩
    rw [h.ok hp]
    exact (hf hp).ok hq
  · intro hnot
    by_cases hp : P
    · obtain ⟨e,he⟩ := (hf hp).error fun hq => hnot ⟨hp,hq⟩
      exact ⟨e,by rw [h.ok hp]; exact he⟩
    · obtain ⟨e,he⟩ := h.error hp
      exact ⟨e,by rw [he]; rfl⟩

theorem Succeeds.error_iff (h : Succeeds r a P) : (∃ e, r = .error e) ↔ ¬P := by
  refine ⟨?_,h.error⟩
  rintro ⟨e,he⟩ hp
  simp [h.ok hp] at he

end Outcomes
end JustMail.Foundation
