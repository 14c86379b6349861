import Mathlib.Data.List.Induction
import Mathlib.Data.Set.Basic

/-! A set that operations change one after the other. Each puts an element in, takes it out
or says nothing of it, and the last one that says something decides. -/
namespace JustMail.Foundation
namespace Verdicts
variable {ι α : Type}

/-- The set after one operation. -/
def settle (s : Set α) (v : α → Option Bool) : Set α := { x | (v x).elim (x ∈ s) (· = true) }

def settleAll (s : Set α) (vs : List (α → Option Bool)) : Set α := vs.foldl settle s

/-- What the last operation that says something of an element says. -/
def lastVerdict (vs : List (α → Option Bool)) (x : α) : Option Bool := (vs.filterMap (· x)).getLast?

/-- The last verdict on `x` is `b`; where there is none, `x` is in the set or not as `b` says. -/
def SettledAt (s : Set α) (vs : List (α → Option Bool)) (x : α) (b : Bool) : Prop := (lastVerdict vs x).elim (x ∈ s ↔ b = true) (· = b)

variable {s : Set α} {x : α} {v : α → Option Bool} {vs : List (α → Option Bool)}

theorem settle_some {b : Bool} (h : v x = some b) : x ∈ settle s v ↔ b = true := by
  change (v x).elim (x ∈ s) (· = true) ↔ _
  rw [h]
  rfl

theorem settle_none (h : v x = none) : x ∈ settle s v ↔ x ∈ s := by
  change (v x).elim (x ∈ s) (· = true) ↔ _
  rw [h]
  rfl

theorem settleAll_append (vs vs' : List (α → Option Bool)) : settleAll s (vs ++ vs') = settleAll (settleAll s vs) vs' := List.foldl_append

theorem settleAll_concat (vs : List (α → Option Bool)) : settleAll s (vs ++ [v]) = settle (settleAll s vs) v := by
  rw [settleAll_append]
  rfl

theorem lastVerdict_some {b : Bool} (h : v x = some b) : lastVerdict (vs ++ [v]) x = some b := by
  simp [lastVerdict,h]

theorem lastVerdict_none (h : v x = none) : lastVerdict (vs ++ [v]) x = lastVerdict vs x := by
  simp [lastVerdict,h]

theorem mem_settleAll (vs : List (α → Option Bool)) : x ∈ settleAll s vs ↔ (lastVerdict vs x).elim (x ∈ s) (· = true) := by
  induction vs using List.reverseRecOn with
  | nil => rfl
  | append_singleton vs v ih =>
    rw [settleAll_concat]
    cases hv : v x with
    | none => rw [settle_none hv,lastVerdict_none hv,ih]
    | some b =>
      rw [settle_some hv,lastVerdict_some hv]
      rfl

theorem settledAt_iff (vs : List (α → Option Bool)) (b : Bool) : SettledAt s vs x b ↔ (x ∈ settleAll s vs ↔ b = true) := by
  rw [SettledAt,mem_settleAll]
  cases lastVerdict vs x with
  | none => rfl
  | some b' =>
    change b' = b ↔ (b' = true ↔ b = true)
    cases b' <;> cases b <;> simp

variable {read meant : ι → α → Option Bool} {Overlooked : ι → Prop}

/-- An operation among some and a last one is the last one, or among the others. -/
private theorem split_concat {ops before after : List ι} {op o : ι} (h : ops ++ [op] = before ++ o :: after) :
    (after = [] ∧ before = ops ∧ o = op) ∨ ∃ after', after = after' ++ [op] ∧ ops = before ++ o :: after' := by
  rcases List.eq_nil_or_concat after with rfl | ⟨after',last,rfl⟩
  · obtain ⟨hbefore,hlast⟩ := List.append_inj' h rfl
    exact .inl ⟨rfl,hbefore.symm,(List.cons.inj hlast).1.symm⟩
  · rw [List.concat_eq_append,← List.cons_append,← List.append_assoc] at h
    obtain ⟨hops,hlast⟩ := List.append_inj' h rfl
    obtain rfl := (List.cons.inj hlast).1
    exact .inr ⟨after',List.concat_eq_append,hops⟩

/-- Where some operations are read otherwise than they are meant, an element ends up as meant
if and only if the last operation meant for it is not one of these, or they leave the
element as it asks all the same. -/
theorem settled_alike_iff {ops : List ι} (hsilent : ∀ op ∈ ops, meant op x = none → read op x = none)
    (hread : ∀ op ∈ ops, ¬Overlooked op → read op x = meant op x) :
    (x ∈ settleAll s (ops.map read) ↔ x ∈ settleAll s (ops.map meant)) ↔
    ∀ before op after b, ops = before ++ op :: after → Overlooked op → meant op x = some b →
      (∀ later ∈ after, meant later x = none) → SettledAt s ((before ++ [op]).map read) x b := by
  induction ops using List.reverseRecOn with
  | nil => simp [settleAll]
  | append_singleton ops op ih =>
    have hmem : op ∈ ops ++ [op] := List.mem_append_right _ List.mem_cons_self
    have hconcat : ∀ f : ι → α → Option Bool, settleAll s ((ops ++ [op]).map f) = settle (settleAll s (ops.map f)) (f op) := by
      intro f
      rw [List.map_append]
      exact settleAll_concat _
    cases hop : meant op x with
    | none =>
      rw [hconcat,hconcat,settle_none hop,settle_none (hsilent op hmem hop),
        ih (fun o ho => hsilent o (List.mem_append_left _ ho)) fun o ho => hread o (List.mem_append_left _ ho)]
      constructor
      · intro h before o after b hsplit hover hmeant hafter
        rcases split_concat hsplit with ⟨-,-,rfl⟩ | ⟨after,rfl,hops⟩
        · simp [hop] at hmeant
        · exact h before o after b hops hover hmeant fun later hlater => hafter later (List.mem_append_left _ hlater)
      · intro h before o after b hsplit hover hmeant hafter
        refine h before o (after ++ [op]) b (by rw [hsplit,List.append_assoc,List.cons_append]) hover hmeant fun later hlater => ?_
        rcases List.mem_append.mp hlater with hlater | hlater
        · exact hafter later hlater
        · rw [List.mem_singleton.mp hlater]
          exact hop
    | some b =>
      -- nothing after the operation can be the last one meant for the element
      have hlast : ∀ {before o after}, ops ++ [op] = before ++ o :: after → (∀ later ∈ after, meant later x = none) →
          before = ops ∧ o = op := by
        intro before o after hsplit hafter
        rcases split_concat hsplit with ⟨-,hsame⟩ | ⟨after,rfl,-⟩
        · exact hsame
        · have hnone := hafter op (List.mem_append_right _ List.mem_cons_self)
          simp [hop] at hnone
      rw [hconcat meant,settle_some hop]
      by_cases hover : Overlooked op
      · constructor
        · intro h before o after b' hsplit _ hmeant hafter
          obtain ⟨rfl,rfl⟩ := hlast hsplit hafter
          obtain rfl := Option.some.inj (hop.symm.trans hmeant)
          exact (settledAt_iff _ b).mpr h
        · intro h
          exact (settledAt_iff _ b).mp (h ops op [] b rfl hover hop (by simp))
      · rw [hconcat,settle_some ((hread op hmem hover).trans hop)]
        refine iff_of_true Iff.rfl fun before o after b' hsplit hover' _ hafter => ?_
        obtain ⟨-,rfl⟩ := hlast hsplit hafter
        exact absurd hover' hover

end Verdicts
end JustMail.Foundation
