import Mathlib.Data.List.Flatten
import Mathlib.Data.List.Nodup
import Mathlib.Logic.Relation

/-! A worklist over a graph that is given by the successors of each node. Nodes wait in a
queue; one that has been seen is dropped, any other is seen and its successors wait too. -/
namespace JustMail.Foundation
variable {α : Type}

section Loop
variable [DecidableEq α]

/-- The loop, with a bound on its turns. Nothing where the queue is not empty by then. -/
def explore (next : α → List α) : Nat → List α → List α → Option (List α)
  | _, seen, [] => some seen
  | 0, _, _ :: _ => none
  | n+1, seen, g :: queue =>
    if g ∈ seen then explore next n seen queue
    else explore next n (seen ++ [g]) (queue ++ (next g).filter fun p => p ∉ seen ++ [g])

/-- The successors of the nodes that have not been seen: what may still come to wait. -/
def unexplored (next : α → List α) (nodes seen : List α) : List α := (nodes.filter fun g => g ∉ seen).flatMap next

end Loop

/-- `b` can be reached from `a`. -/
abbrev Reaches (next : α → List α) : α → α → Prop := Relation.ReflTransGen fun a b => b ∈ next a

variable {next : α → List α} {nodes start seen queue found : List α} {n : Nat} {g : α}

section Enough
variable [DecidableEq α]

private theorem length_flatMap_without (h : g ∈ nodes) :
    ((nodes.filter fun a => a ≠ g).flatMap next).length + (next g).length ≤ (nodes.flatMap next).length := by
  induction nodes with
  | nil => exact absurd h List.not_mem_nil
  | cons a nodes ih =>
    rw [List.flatMap_cons,List.length_append]
    by_cases ha : a = g
    · subst ha
      have hfewer : ((nodes.filter fun b => b ≠ a).flatMap next).length ≤ (nodes.flatMap next).length :=
        (List.filter_sublist.flatMap next).length_le
      rw [List.filter_cons_of_neg (by simp)]
      omega
    · have hrest := ih ((List.mem_cons.mp h).resolve_left (Ne.symm ha))
      rw [List.filter_cons_of_pos (by simpa using ha),List.flatMap_cons,List.length_append]
      omega

/-- A node that comes to be seen takes its successors with it. -/
theorem unexplored_snoc (hnew : g ∉ seen) (hnodes : next g ≠ [] → g ∈ nodes) :
    (unexplored next nodes (seen ++ [g])).length + (next g).length ≤ (unexplored next nodes seen).length := by
  have hfilter : (nodes.filter fun a => a ∉ seen ++ [g]) = (nodes.filter fun a => a ∉ seen).filter fun a => a ≠ g := by
    rw [List.filter_filter]
    refine List.filter_congr fun a _ => ?_
    simp [and_comm]
  rw [unexplored,unexplored,hfilter]
  by_cases hnone : next g = []
  · have hfewer : (((nodes.filter fun a => a ∉ seen).filter fun a => a ≠ g).flatMap next).length ≤
        ((nodes.filter fun a => a ∉ seen).flatMap next).length :=
      (List.filter_sublist.flatMap next).length_le
    rw [hnone]
    exact hfewer
  · exact length_flatMap_without (List.mem_filter.mpr ⟨hnodes hnone,by simpa using hnew⟩)

/-- One turn for each node that waits and each successor that may come to wait. -/
theorem explore_enough (hnodes : ∀ g, next g ≠ [] → g ∈ nodes) (h : queue.length + (unexplored next nodes seen).length ≤ n) :
    (explore next n seen queue).isSome = true := by
  induction n generalizing seen queue with
  | zero =>
    obtain rfl : queue = [] := List.length_eq_zero_iff.mp (by omega)
    simp [explore]
  | succ n ih =>
    cases queue with
    | nil => simp [explore]
    | cons g queue =>
      rw [List.length_cons] at h
      rw [explore]
      split
      · exact ih (by omega)
      · rename_i hnew
        have hsnoc := unexplored_snoc hnew (hnodes g)
        have hfewer := List.length_filter_le (fun p => decide (p ∉ seen ++ [g])) (next g)
        refine ih ?_
        rw [List.length_append]
        omega

end Enough

section Found

/-- What holds of the loop: a node is seen once, what is seen or waits is reached, and the successors of
what is seen are seen or wait. -/
structure Explored (next : α → List α) (start seen queue : List α) : Prop where
  nodup : seen.Nodup
  reached : ∀ g, g ∈ seen ∨ g ∈ queue → ∃ a ∈ start, Reaches next a g
  started : ∀ g ∈ start, g ∈ seen ∨ g ∈ queue
  followed : ∀ g ∈ seen, ∀ p ∈ next g, p ∈ seen ∨ p ∈ queue

theorem Explored.initial (next : α → List α) (start : List α) : Explored next start [] start := by
  refine ⟨List.nodup_nil,fun g hg => ?_,fun g hg => .inr hg,fun g hg => absurd hg List.not_mem_nil⟩
  exact ⟨g,hg.resolve_left List.not_mem_nil,.refl⟩

theorem Explored.skip (h : Explored next start seen (g :: queue)) (hseen : g ∈ seen) : Explored next start seen queue := by
  have hstill : ∀ p, p ∈ seen ∨ p ∈ g :: queue → p ∈ seen ∨ p ∈ queue := by
    rintro p (hp | hp)
    · exact .inl hp
    · rcases List.mem_cons.mp hp with rfl | hp
      · exact .inl hseen
      · exact .inr hp
  refine ⟨h.nodup,fun p hp => h.reached p (hp.imp_right (List.mem_cons_of_mem g)),fun p hp => hstill p (h.started p hp),?_⟩
  exact fun a ha p hp => hstill p (h.followed a ha p hp)

variable [DecidableEq α]

theorem Explored.visit (h : Explored next start seen (g :: queue)) (hnew : g ∉ seen) :
    Explored next start (seen ++ [g]) (queue ++ (next g).filter fun p => p ∉ seen ++ [g]) := by
  have hstill : ∀ p, p ∈ seen ∨ p ∈ g :: queue → p ∈ seen ++ [g] ∨ p ∈ queue ++ (next g).filter fun p => p ∉ seen ++ [g] := by
    rintro p (hp | hp)
    · exact .inl (List.mem_append_left _ hp)
    · rcases List.mem_cons.mp hp with rfl | hp
      · exact .inl (List.mem_append_right _ List.mem_cons_self)
      · exact .inr (List.mem_append_left _ hp)
  obtain ⟨a,ha,hreach⟩ := h.reached g (.inr List.mem_cons_self)
  refine ⟨?_,?_,fun p hp => hstill p (h.started p hp),?_⟩
  · rw [List.nodup_append]
    refine ⟨h.nodup,List.nodup_singleton g,fun p hp p' hp' heq => ?_⟩
    rw [heq,List.mem_singleton.mp hp'] at hp
    exact hnew hp
  · rintro p (hp | hp)
    · rcases List.mem_append.mp hp with hp | hp
      · exact h.reached p (.inl hp)
      · rw [List.mem_singleton.mp hp]
        exact ⟨a,ha,hreach⟩
    · rcases List.mem_append.mp hp with hp | hp
      · exact h.reached p (.inr (List.mem_cons_of_mem g hp))
      · exact ⟨a,ha,hreach.tail (List.mem_filter.mp hp).1⟩
  · intro b hb p hp
    rcases List.mem_append.mp hb with hb | hb
    · exact hstill p (h.followed b hb p hp)
    · rw [List.mem_singleton.mp hb] at hp
      by_cases hseen : p ∈ seen ++ [g]
      · exact .inl hseen
      · exact .inr (List.mem_append_right _ (List.mem_filter.mpr ⟨hp,by simpa using hseen⟩))

theorem Explored.finish (h : Explored next start seen queue) (hfound : explore next n seen queue = some found) :
    Explored next start found [] := by
  induction n generalizing seen queue with
  | zero =>
    cases queue with
    | nil => exact Option.some.inj (by simpa [explore] using hfound) ▸ h
    | cons g queue => simp [explore] at hfound
  | succ n ih =>
    cases queue with
    | nil => exact Option.some.inj (by simpa [explore] using hfound) ▸ h
    | cons g queue =>
      rw [explore] at hfound
      split at hfound
      · rename_i hseen
        exact ih (h.skip hseen) hfound
      · rename_i hnew
        exact ih (h.visit hnew) hfound

/-- What is found are the nodes that can be reached, each once. -/
theorem explore_found (hfound : explore next n [] start = some found) :
    found.Nodup ∧ ∀ g, g ∈ found ↔ ∃ a ∈ start, Reaches next a g := by
  have h := (Explored.initial next start).finish hfound
  refine ⟨h.nodup,fun g => ⟨fun hg => h.reached g (.inl hg),?_⟩⟩
  rintro ⟨a,ha,hreach⟩
  induction hreach with
  | refl => exact (h.started a ha).resolve_right List.not_mem_nil
  | tail _ hstep ih => exact (h.followed _ ih _ hstep).resolve_right List.not_mem_nil

end Found
end JustMail.Foundation
