import Mathlib.Algebra.GroupWithZero.Nat
import Mathlib.Data.Finset.Card
import Mathlib.Data.List.Dedup

/-! `FROM a LEFT JOIN b ON ..` with the aggregates over it: what `count(*)` and `count(DISTINCT ..)` count in
the rows of the join, in terms of the rows of the tables. -/
namespace JustMail.Foundation
variable {α β κ ρ : Type} {on : α → β → Bool} {rows : List α} {joined : List β}

/-- The matches of a row, or NULL. -/
def padded : List β → List (Option β)
  | [] => [none]
  | b :: bs => (b :: bs).map some

def leftJoin (on : α → β → Bool) (rows : List α) (joined : List β) : List (α × Option β) :=
  rows.flatMap fun a => (padded (joined.filter (on a))).map fun o => (a,o)

/-- `count(DISTINCT f) FILTER (WHERE p)`. -/
def countDistinct [DecidableEq κ] (f : ρ → κ) (p : ρ → Bool) (rows : List ρ) : Nat := ((rows.filter p).map f).dedup.length

theorem leftJoin_cons (a : α) (rows : List α) (joined : List β) :
    leftJoin on (a :: rows) joined = leftJoin on [a] joined ++ leftJoin on rows joined := by
  simp [leftJoin]

theorem some_mem_padded {bs : List β} {b : β} : some b ∈ padded bs ↔ b ∈ bs := by
  cases bs with
  | nil => simp [padded]
  | cons c bs => simp [padded]

theorem length_padded (bs : List β) : (padded bs).length = max 1 bs.length := by
  cases bs with
  | nil => rfl
  | cons b bs => simp [padded]

theorem fst_mem_leftJoin {x : α × Option β} (h : x ∈ leftJoin on rows joined) : x.1 ∈ rows := by
  obtain ⟨a,ha,hx⟩ := List.mem_flatMap.mp h
  obtain ⟨o,-,rfl⟩ := List.mem_map.mp hx
  exact ha

theorem exists_mem_leftJoin {a : α} (ha : a ∈ rows) : ∃ o, (a,o) ∈ leftJoin on rows joined := by
  obtain ⟨o,ho⟩ := List.exists_mem_of_length_pos (l := padded (joined.filter (on a)))
    (length_padded (joined.filter (on a)) ▸ Nat.lt_of_lt_of_le Nat.one_pos (Nat.le_max_left 1 _))
  exact ⟨o,List.mem_flatMap.mpr ⟨a,ha,List.mem_map_of_mem ho⟩⟩

theorem some_mem_leftJoin {a : α} {b : β} : (a,some b) ∈ leftJoin on rows joined ↔ a ∈ rows ∧ b ∈ joined ∧ on a b = true := by
  rw [leftJoin,List.mem_flatMap]
  constructor
  · rintro ⟨c,hc,hmem⟩
    obtain ⟨o,ho,he⟩ := List.mem_map.mp hmem
    cases he
    exact ⟨hc,List.mem_filter.mp (some_mem_padded.mp ho)⟩
  · rintro ⟨ha,hb⟩
    exact ⟨a,ha,List.mem_map_of_mem (some_mem_padded.mpr (List.mem_filter.mpr hb))⟩

theorem length_leftJoin_single (a : α) (joined : List β) : (leftJoin on [a] joined).length = max 1 (joined.countP (on a)) := by
  rw [leftJoin,List.flatMap_singleton,List.length_map,length_padded,List.countP_eq_length_filter]

/-- WHERE with a condition on the first table. -/
theorem filter_leftJoin (p : α → Bool) (rows : List α) (joined : List β) :
    (leftJoin on rows joined).filter (fun x => p x.1) = leftJoin on (rows.filter p) joined := by
  induction rows with
  | nil => rfl
  | cons a rows ih =>
    rw [leftJoin_cons,List.filter_append,ih]
    have hfirst : ∀ x ∈ leftJoin on [a] joined, x.1 = a := fun x hx => List.mem_singleton.mp (fst_mem_leftJoin hx)
    by_cases hp : p a = true
    · rw [List.filter_cons_of_pos hp,leftJoin_cons a (rows.filter p)]
      refine congrArg (· ++ _) (List.filter_eq_self.mpr fun x hx => ?_)
      rwa [hfirst x hx]
    · rw [List.filter_cons_of_neg hp,List.filter_eq_nil_iff.mpr,List.nil_append]
      intro x hx
      rwa [hfirst x hx]

/-- `count(*)` counts a row once for each of its matches. -/
theorem countP_leftJoin (p : α → Bool) (rows : List α) (joined : List β) :
    (leftJoin on rows joined).countP (fun x => p x.1) = ((rows.filter p).map fun a => max 1 (joined.countP (on a))).sum := by
  rw [List.countP_eq_length_filter,filter_leftJoin]
  induction rows.filter p with
  | nil => rfl
  | cons a rows ih => rw [leftJoin_cons,List.length_append,length_leftJoin_single,ih,List.map_cons,List.sum_cons]

/-- `count(DISTINCT key)` counts the rows that have such a match, each once. -/
theorem countDistinct_leftJoin [DecidableEq κ] {key : α → κ} (hkey : (rows.map key).Nodup) (q : β → Bool) :
    countDistinct (fun x => key x.1) (fun x : α × Option β => x.2.any q) (leftJoin on rows joined) =
      rows.countP fun a => joined.any fun b => on a b && q b := by
  have hnodup : ((rows.filter fun a => joined.any fun b => on a b && q b).map key).Nodup :=
    hkey.sublist (List.filter_sublist.map key)
  have hkeys : (((leftJoin on rows joined).filter fun x => x.2.any q).map fun x => key x.1).toFinset =
      ((rows.filter fun a => joined.any fun b => on a b && q b).map key).toFinset := by
    ext k
    simp only [List.mem_toFinset,List.mem_map,List.mem_filter,List.any_eq_true,Bool.and_eq_true]
    constructor
    · rintro ⟨⟨a,o⟩,⟨hmem,ho⟩,rfl⟩
      obtain ⟨b,rfl,hb⟩ := (Option.any_eq_true _ _).mp ho
      obtain ⟨ha,hjoined,hon⟩ := some_mem_leftJoin.mp hmem
      exact ⟨a,⟨ha,b,hjoined,hon,hb⟩,rfl⟩
    · rintro ⟨a,⟨ha,b,hjoined,hon,hb⟩,rfl⟩
      exact ⟨(a,some b),⟨some_mem_leftJoin.mpr ⟨ha,hjoined,hon⟩,hb⟩,rfl⟩
  have hcard := congrArg Finset.card hkeys
  rw [List.toFinset_card_of_nodup hnodup,List.length_map,← List.countP_eq_length_filter,List.card_toFinset] at hcard
  exact hcard

end JustMail.Foundation
