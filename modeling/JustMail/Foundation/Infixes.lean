import Mathlib.Data.List.Basic
import Mathlib.Data.List.Infix

/-! Where a list can be found in lists that have been joined. -/
namespace JustMail.Foundation
variable {α : Type} {s x y l r : List α} {c : α} {parts : List (List α)}

/-- A list without the element between two others is in one of them. -/
theorem infix_append_cons (h : s <:+: x ++ c :: y) (hc : c ∉ s) : s <:+: x ∨ s <:+: y := by
  obtain ⟨p,q,heq⟩ := h
  rw [List.append_assoc,List.append_eq_append_iff] at heq
  rcases heq with ⟨a,rfl,ha⟩ | ⟨b,rfl,hb⟩
  · left
    rcases List.append_eq_append_iff.mp ha with ⟨b,rfl,-⟩ | ⟨b,hs,hb⟩
    · exact ⟨p,b,by rw [List.append_assoc]⟩
    · cases b with
      | nil => exact ⟨p,[],by simp [hs]⟩
      | cons d b =>
        cases hb
        exact absurd (by simp [hs]) hc
  · cases b with
    | nil =>
      cases s with
      | nil => exact .inl (List.nil_infix)
      | cons d s =>
        cases hb
        exact absurd List.mem_cons_self hc
    | cons d b =>
      have htail : y = b ++ (s ++ q) := (List.cons.inj hb).2
      exact .inr ⟨b,q,by rw [htail,List.append_assoc]⟩

/-- A list that does not end with the element that follows. -/
theorem infix_of_snoc (h : s <:+: x ++ [c]) (hlast : ∀ d ∈ s.getLast?, d ≠ c) : s <:+: x := by
  rcases List.infix_concat_iff.mp h with hsuffix | hwithin
  · obtain ⟨p,hp⟩ := hsuffix
    rcases List.eq_nil_or_concat s with rfl | ⟨s',d,rfl⟩
    · exact List.nil_infix
    · rw [List.concat_eq_append] at hp hlast
      have hd : d = c := by
        have hends := congrArg List.getLast? hp
        simpa using hends
      exact absurd hd (hlast d (by simp))
  · exact hwithin

theorem infix_of_cons (h : s <:+: c :: x) (hhead : ∀ d ∈ s.head?, d ≠ c) : s <:+: x := by
  rcases List.infix_cons_iff.mp h with hstarts | hwithin
  · cases s with
    | nil => exact List.nil_infix
    | cons d s => exact absurd (List.cons_prefix_cons.mp hstarts).1 (hhead d rfl)
  · exact hwithin

/-- A part is found in the whole. -/
theorem infix_intercalate {sep a : List α} (h : a ∈ parts) : a <:+: sep.intercalate parts := by
  induction parts with
  | nil => exact absurd h List.not_mem_nil
  | cons b parts ih =>
    rcases List.mem_cons.mp h with rfl | hrest
    · cases parts with
      | nil => rw [List.intercalate_singleton]
      | cons b parts =>
        rw [List.intercalate_cons_cons,List.append_assoc]
        exact List.infix_append_left
    · rw [List.intercalate_cons_of_ne_nil (List.ne_nil_of_mem hrest)]
      exact List.infix_append_of_infix_right (ih hrest)

/-- A list without a sign of the separator, which does not reach into what is on either side of that sign, is
in one of the parts. -/
theorem infix_of_intercalate (h : s <:+: (l ++ c :: r).intercalate parts) (hc : c ∉ s)
    (hl : ∀ x, s <:+: x ++ l → s <:+: x) (hr : ∀ x, s <:+: r ++ x → s <:+: x) : s = [] ∨ ∃ a ∈ parts, s <:+: a := by
  induction parts with
  | nil => exact .inl (List.infix_nil.mp h)
  | cons a parts ih =>
    cases parts with
    | nil =>
      rw [List.intercalate_singleton] at h
      exact .inr ⟨a,List.mem_cons_self,h⟩
    | cons b parts =>
      rw [List.intercalate_cons_cons] at h
      have hsplit : s <:+: (a ++ l) ++ c :: (r ++ (l ++ c :: r).intercalate (b :: parts)) := by simpa using h
      rcases infix_append_cons hsplit hc with hfirst | hrest
      · exact .inr ⟨a,List.mem_cons_self,hl a hfirst⟩
      · rcases ih (hr _ hrest) with hnil | ⟨a',ha',hwithin⟩
        · exact .inl hnil
        · exact .inr ⟨a',List.mem_cons_of_mem a ha',hwithin⟩

theorem infix_flatMap {β : Type} {f : β → List α} {b : β} {l : List β} (h : b ∈ l) : f b <:+: l.flatMap f :=
  List.infix_of_mem_flatten (List.mem_map_of_mem h)

/-- Whether a test holds somewhere in a list. -/
def searches (p : List α → Bool) : List α → Bool
  | [] => p []
  | c :: s => p (c :: s) || searches p s

theorem searches_iff {p : List α → Bool} : searches p s = true ↔ ∃ x y, s = x ++ y ∧ p y = true := by
  induction s with
  | nil =>
    constructor
    · exact fun h => ⟨[],[],rfl,h⟩
    · rintro ⟨x,y,heq,h⟩
      rw [(List.append_eq_nil_iff.mp heq.symm).2] at h
      exact h
  | cons c s ih =>
    rw [searches,Bool.or_eq_true,ih]
    constructor
    · rintro (h | ⟨x,y,rfl,h⟩)
      · exact ⟨[],c :: s,rfl,h⟩
      · exact ⟨c :: x,y,rfl,h⟩
    · rintro ⟨x,y,heq,h⟩
      rcases List.cons_eq_append_iff.mp heq with ⟨rfl,rfl⟩ | ⟨x',rfl,rfl⟩
      · exact .inl h
      · exact .inr ⟨x',y,rfl,h⟩

/-- Where a test finds what starts with a match, the search finds what has a match in it. -/
theorem searches_iff_within {p : List α → Bool} {P : List α → Prop} (h : ∀ y, p y = true ↔ ∃ m, P m ∧ m <+: y) :
    searches p s = true ↔ ∃ m, P m ∧ m <:+: s := by
  rw [searches_iff]
  constructor
  · rintro ⟨x,y,rfl,hp⟩
    obtain ⟨m,hm,hstarts⟩ := (h y).mp hp
    exact ⟨m,hm,hstarts.isInfix.trans List.infix_append_right⟩
  · rintro ⟨m,hm,x,y,rfl⟩
    exact ⟨x,m ++ y,List.append_assoc x m y,(h (m ++ y)).mpr ⟨m,hm,List.prefix_append m y⟩⟩

end JustMail.Foundation
