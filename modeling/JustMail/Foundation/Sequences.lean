import Mathlib.Data.Finset.Card
import Mathlib.Data.List.Nodup

/-! Parts of a list: windows and ranges of its positions, pieces of bounded length, and its distinct elements. -/
namespace JustMail.Foundation
variable {α β : Type}

/-- `list.slice(-n)`. -/
def sliceLast (n : Nat) (l : List α) : List α := if n = 0 then l else l.drop (l.length - n)

section Windows
variable {l l' : List α} {n : Nat} {p q : α → Bool}

theorem sliceLast_sublist (n : Nat) (l : List α) : (sliceLast n l).Sublist l := by
  rw [sliceLast]
  split
  · exact List.Sublist.refl l
  · exact List.drop_sublist _ _

theorem sliceLast_map (n : Nat) (f : α → β) (l : List α) : sliceLast n (l.map f) = (sliceLast n l).map f := by
  rw [sliceLast,sliceLast,List.length_map]
  split
  · rfl
  · exact List.map_drop.symm

/-- The last ones backwards are the first of the list backwards. -/
theorem reverse_sliceLast (hn : 0 < n) (l : List α) : (sliceLast n l).reverse = l.reverse.take n := by
  rw [sliceLast,if_neg (Nat.ne_of_gt hn),List.reverse_drop]
  rcases Nat.le_total n l.length with hle | hle
  · rw [Nat.sub_sub_self hle]
  · rw [Nat.sub_eq_zero_of_le hle,Nat.sub_zero,List.take_of_length_le (by simp),List.take_of_length_le (by simpa using hle)]

/-- In a list whose elements differ by a key, those with a key of a sublist are the sublist. -/
theorem filter_key_mem [DecidableEq β] {key : α → β} (h : l'.Sublist l) (hl : (l.map key).Nodup) :
    l.filter (fun a => decide (key a ∈ l'.map key)) = l' := by
  induction h with
  | slnil => rfl
  | cons a h ih =>
    obtain ⟨ha,hl⟩ := List.nodup_cons.mp hl
    have hout : key a ∉ List.map key _ := fun hmem => ha ((h.map key).subset hmem)
    rw [List.filter_cons_of_neg (by simpa using hout)]
    exact ih hl
  | cons_cons a h ih =>
    obtain ⟨ha,hl⟩ := List.nodup_cons.mp hl
    rw [List.filter_cons_of_pos (by simp)]
    refine congrArg (a :: ·) ((List.filter_congr fun b hb => ?_).trans (ih hl))
    have hne : key b ≠ key a := fun he => ha (he ▸ List.mem_map_of_mem hb)
    simp [hne]

/-- Filtering a window with a narrower filter gives the window of the filtered list exactly when the filters agree in
the window, and behind it nothing passes unless all of the window does. -/
theorem filter_take_eq_iff (hqp : ∀ a, q a = true → p a = true) : (l.take n).filter q = (l.filter p).take n ↔
    (∀ a ∈ l.take n, p a = true → q a = true) ∧ ((∃ a ∈ l.drop n, p a = true) → ∀ a ∈ l.take n, p a = true) := by
  have hlength : (l.take n).length ≤ n := List.length_take_le n l
  have hinside : ((l.take n).filter p).length ≤ (l.take n).length := List.length_filter_le _ _
  have hsplit : (l.filter p).take n = (l.take n).filter p ++ ((l.drop n).filter p).take (n - ((l.take n).filter p).length) := by
    conv_lhs => rw [← List.take_append_drop n l,List.filter_append,List.take_append]
    rw [List.take_of_length_le (Nat.le_trans hinside hlength)]
  rw [hsplit]
  constructor
  · intro he
    have hnarrow : ((l.take n).filter q).length ≤ ((l.take n).filter p).length :=
      (List.monotone_filter_right _ fun a ha => hqp a ha).length_le
    have hlengths := congrArg List.length he
    rw [List.length_append] at hlengths
    have hrest : ((l.drop n).filter p).take (n - ((l.take n).filter p).length) = [] := List.eq_nil_of_length_eq_zero (by omega)
    rw [hrest,List.append_nil] at he
    refine ⟨fun a ha hp => ?_,?_⟩
    · have hmem : a ∈ (l.take n).filter q := by rw [he]; exact List.mem_filter.mpr ⟨ha,hp⟩
      exact (List.mem_filter.mp hmem).2
    · rintro ⟨a,ha,hp⟩
      have hfull : n - ((l.take n).filter p).length = 0 := by
        rcases List.take_eq_nil_iff.mp hrest with hzero | hnil
        · exact hzero
        · exact absurd (List.mem_filter.mpr ⟨ha,hp⟩) (by rw [hnil]; exact List.not_mem_nil)
      exact List.length_filter_eq_length_iff.mp (by omega)
  · rintro ⟨hsame,hfull⟩
    have hfilters : (l.take n).filter q = (l.take n).filter p :=
      List.filter_congr fun a ha => Bool.eq_iff_iff.mpr ⟨hqp a,hsame a ha⟩
    have hrest : ((l.drop n).filter p).take (n - ((l.take n).filter p).length) = [] := by
      by_cases hbehind : ∃ a ∈ l.drop n, p a = true
      · have hall : ((l.take n).filter p).length = (l.take n).length := List.length_filter_eq_length_iff.mpr (hfull hbehind)
        obtain ⟨a,ha,-⟩ := hbehind
        have hlong : n < l.length := by
          have hpos := List.length_pos_of_mem ha
          rw [List.length_drop] at hpos
          omega
        rw [hall,List.length_take,Nat.min_eq_left (Nat.le_of_lt hlong),Nat.sub_self,List.take_zero]
      · rw [List.filter_eq_nil_iff.mpr fun a ha hp => hbehind ⟨a,ha,hp⟩,List.take_nil]
    rw [hfilters,hrest,List.append_nil]

end Windows

/-- The elements from `first` on, up to `last` if that is given. -/
def slice (data : List α) (first : Nat) : Option Nat → List α
  | none => data.drop first
  | some last => (data.drop first).take (last + 1 - first)

/-- A last position past the end is the end. -/
theorem slice_min {data : List α} {first : Nat} (h : first < data.length) (last : Option Nat) :
    slice data first last = slice data first (some (min (last.getD (data.length - 1)) (data.length - 1))) := by
  cases last with
  | none =>
    rw [slice,slice,Option.getD_none,Nat.min_self,List.take_of_length_le]
    rw [List.length_drop]
    omega
  | some last =>
    rw [slice,slice,Option.getD_some,List.take_eq_take_iff,List.length_drop]
    omega

private theorem toChunks_go_flatten (k : Nat) (s : List α) (acc : Array α) (out : Array (List α)) :
    (List.toChunks.go k s acc out).flatten = out.toList.flatten ++ acc.toList ++ s := by
  induction s generalizing acc out with
  | nil => simp [List.toChunks.go]
  | cons a s ih =>
    rw [List.toChunks.go]
    split
    · simp [ih]
    · simp [ih]

private theorem toChunks_go_bounded {k : Nat} (hk : 0 < k) {s : List α} {acc : Array α} {out : Array (List α)}
    (hacc : acc.toList ≠ [] ∧ acc.toList.length ≤ k) (hout : ∀ p ∈ out.toList, p ≠ [] ∧ p.length ≤ k) :
    ∀ p ∈ List.toChunks.go k s acc out, p ≠ [] ∧ p.length ≤ k := by
  induction s generalizing acc out with
  | nil =>
    intro p hp
    rw [List.toChunks.go,Array.toList_push,List.mem_append,List.mem_singleton] at hp
    rcases hp with hp | rfl
    · exact hout p hp
    · exact hacc
  | cons a s ih =>
    rw [List.toChunks.go]
    split
    · refine ih ⟨by simp,by simp; omega⟩ fun p hp => ?_
      rw [Array.toList_push,List.mem_append,List.mem_singleton] at hp
      rcases hp with hp | rfl
      · exact hout p hp
      · exact hacc
    · rename_i hfull
      refine ih ⟨by simp,?_⟩ hout
      have hlen := hacc.2
      simp only [beq_iff_eq,← Array.length_toList] at hfull
      rw [Array.toList_push,List.length_append,List.length_singleton]
      omega

theorem toChunks_flatten (k : Nat) (s : List α) : (s.toChunks k).flatten = s := by
  cases s with
  | nil => simp [List.toChunks]
  | cons a s =>
    cases k with
    | zero => simp [List.toChunks]
    | succ k => simp [List.toChunks,toChunks_go_flatten]

/-- No piece is empty and none is longer than the bound. -/
theorem toChunks_bounded {k : Nat} (hk : 0 < k) (s : List α) : ∀ p ∈ s.toChunks k, p ≠ [] ∧ p.length ≤ k := by
  cases s with
  | nil => simp [List.toChunks]
  | cons a s =>
    cases k with
    | zero => omega
    | succ k =>
      rw [List.toChunks]
      · exact toChunks_go_bounded hk ⟨by simp,by simp⟩ (by simp)
      · omega

theorem toChunks_ne_nil {k : Nat} {s : List α} (hs : s ≠ []) : s.toChunks k ≠ [] := by
  intro he
  have hflat := toChunks_flatten k s
  rw [he] at hflat
  exact hs hflat.symm

/-! `[...new Set(xs)]`: the elements of a list once each, in the order in which they come first. -/
section Distinct
variable [BEq α]

theorem eraseDups_induction {motive : List α → Prop} (nil : motive [])
    (cons : ∀ a l, motive (l.filter fun b => !b == a) → motive (a :: l)) (l : List α) : motive l := by
  induction hn : l.length using Nat.strongRecOn generalizing l with
  | ind n ih =>
    cases l with
    | nil => exact nil
    | cons a l =>
      apply cons
      have hle := List.length_filter_le (fun b => !b == a) l
      rw [List.length_cons] at hn
      exact ih _ (by omega) _ rfl

variable [LawfulBEq α] {a : α} {p : α → Bool}

theorem nodup_eraseDups (l : List α) : l.eraseDups.Nodup := by
  induction l using eraseDups_induction with
  | nil => exact List.nodup_nil
  | cons a l ih =>
    rw [List.eraseDups_cons,List.nodup_cons]
    refine ⟨fun hmem => ?_,ih⟩
    simpa using (List.mem_filter.mp (List.mem_eraseDups.mp hmem)).2

theorem length_eraseDups [DecidableEq α] (l : List α) : l.eraseDups.length = l.toFinset.card := by
  rw [← List.toFinset_card_of_nodup (nodup_eraseDups l)]
  congr 1
  ext a
  rw [List.mem_toFinset,List.mem_toFinset,List.mem_eraseDups]

theorem find?_filter_ne (ha : p a = false) (l : List α) : (l.filter fun b => !b == a).find? p = l.find? p := by
  induction l with
  | nil => rfl
  | cons b l ih =>
    by_cases hb : b = a
    · rw [List.filter_cons_of_neg (by simp [hb]),List.find?_cons_of_neg (by simp [hb,ha]),ih]
    · rw [List.filter_cons_of_pos (by simp [hb]),List.find?_cons,List.find?_cons,ih]

/-- The first element of a kind is the same. -/
theorem find?_eraseDups (p : α → Bool) (l : List α) : l.eraseDups.find? p = l.find? p := by
  induction l using eraseDups_induction with
  | nil => rfl
  | cons a l ih =>
    rw [List.eraseDups_cons]
    cases ha : p a with
    | true => rw [List.find?_cons_of_pos ha,List.find?_cons_of_pos ha]
    | false =>
      rw [List.find?_cons_of_neg (by simp [ha]),List.find?_cons_of_neg (by simp [ha]),ih,find?_filter_ne ha]

/-- An element twice in front counts once. -/
theorem eraseDups_cons_cons (a : α) (l : List α) : (a :: a :: l).eraseDups = (a :: l).eraseDups := by
  rw [List.eraseDups_cons,List.eraseDups_cons,List.filter_cons_of_neg (by simp)]

end Distinct
end JustMail.Foundation
