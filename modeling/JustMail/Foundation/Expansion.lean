import Mathlib.Data.Set.Insert

/-! Recursive address rewriting: an entry replaces an address by others, which are
rewritten in turn, and an address that its own entry lists stays. -/
namespace JustMail.Foundation
variable {α : Type} {entry : α → Option (List α)} {a b c : α} {ds : List α}

/-- `Delivers entry a b`: rewriting `a` arrives at `b` and stops there. -/
inductive Delivers (entry : α → Option (List α)) : α → α → Prop where
  | self {a : α} : entry a = none → Delivers entry a a
  | kept {a : α} {ds : List α} : entry a = some ds → a ∈ ds → Delivers entry a a
  | via {a b d : α} {ds : List α} : entry a = some ds → d ∈ ds → d ≠ a → Delivers entry d b → Delivers entry a b

/-- The least set of final addresses. An endless rewriting contributes none. -/
def resolve (entry : α → Option (List α)) (a : α) : Set α := {b | Delivers entry a b}

/-- Rewriting within a limit on its depth, with nothing where the limit is reached. -/
def expand [DecidableEq α] (entry : α → Option (List α)) : Nat → α → Option (List α)
  | 0, _ => none
  | n+1, a =>
    match entry a with
    | none => some [a]
    | some ds => (ds.mapM fun d => if d = a then some [a] else expand entry n d).map List.flatten

/-- Rewriting stops only where there is no entry, or one that lists its own address. -/
theorem Delivers.final (h : Delivers entry a b) : ∀ ds, entry b = some ds → b ∈ ds := by
  induction h with
  | self hnone =>
    intro ds hds
    rw [hnone] at hds
    exact absurd hds (by simp)
  | kept hentry hmem =>
    intro ds hds
    rw [hentry] at hds
    exact Option.some.inj hds ▸ hmem
  | via _ _ _ _ ih => exact ih

theorem resolve_of_none (h : entry a = none) : resolve entry a = {a} := by
  apply Set.ext
  intro b
  constructor
  · rintro (_ | ⟨hds,-⟩ | ⟨hds,-,-,-⟩)
    · rfl
    · rfl
    · exact absurd (h.symm.trans hds) (by simp)
  · rintro rfl
    exact Delivers.self h

/-- An entry that names one address keeps its own only by naming it. -/
theorem resolve_eq_self_iff (h : entry a = some ds) (hmem : c ∈ ds) (honly : ∀ d ∈ ds, d = c) :
    resolve entry a = {a} ↔ c = a := by
  constructor
  · intro hself
    have ha : Delivers entry a a := Set.ext_iff.mp hself a |>.mpr rfl
    exact (honly a (ha.final ds h)).symm
  · rintro rfl
    apply Set.ext
    intro b
    constructor
    · rintro (_ | ⟨-,-⟩ | ⟨hds,hd,hne,-⟩)
      · rfl
      · rfl
      · obtain rfl := Option.some.inj (h.symm.trans hds)
        exact absurd (honly _ hd) hne
    · rintro rfl
      exact Delivers.kept h hmem

/-- The lists that `mapM` collects are the values of `f`, one for each member. -/
theorem mapM_values {β : Type} {f : α → Option β} {ls : List β} (h : ds.mapM f = some ls) :
    (∀ d ∈ ds, ∃ l ∈ ls, f d = some l) ∧ ∀ l ∈ ls, ∃ d ∈ ds, f d = some l := by
  induction ds generalizing ls with
  | nil =>
    obtain rfl : ls = [] := by simpa using h.symm
    simp
  | cons d ds ih =>
    rw [List.mapM_cons] at h
    obtain ⟨l,hl,h⟩ := Option.bind_eq_some_iff.mp h
    obtain ⟨ls',hls',h⟩ := Option.bind_eq_some_iff.mp h
    cases h
    obtain ⟨hto,hfrom⟩ := ih hls'
    constructor
    · rintro e (_ | ⟨_,he⟩)
      · exact ⟨l,by simp,hl⟩
      · obtain ⟨l',hl',hel'⟩ := hto e he
        exact ⟨l',by simp [hl'],hel'⟩
    · rintro l' (_ | ⟨_,hl'⟩)
      · exact ⟨d,by simp,hl⟩
      · obtain ⟨e,he,hel'⟩ := hfrom l' hl'
        exact ⟨e,by simp [he],hel'⟩

/-- Where the limit is not reached, rewriting finds the final addresses. -/
theorem mem_expand [DecidableEq α] {n : Nat} {l : List α} (h : expand entry n a = some l) :
    b ∈ l ↔ b ∈ resolve entry a := by
  induction n generalizing a b l with
  | zero => exact absurd h (by simp [expand])
  | succ n ih =>
    rw [expand] at h
    split at h
    · rename_i hnone
      cases h
      rw [resolve_of_none hnone,List.mem_singleton,Set.mem_singleton_iff]
    · rename_i ds hds
      obtain ⟨ls,hls,rfl⟩ := Option.map_eq_some_iff.mp h
      obtain ⟨hto,hfrom⟩ := mapM_values hls
      rw [List.mem_flatten]
      constructor
      · rintro ⟨l,hl,hb⟩
        obtain ⟨d,hd,hdl⟩ := hfrom l hl
        split at hdl
        · rename_i hda
          subst hda
          cases hdl
          obtain rfl := List.mem_singleton.mp hb
          exact Delivers.kept hds hd
        · rename_i hda
          exact Delivers.via hds hd hda ((ih hdl).mp hb)
      · rintro (hnone | ⟨hds',ha⟩ | ⟨hds',hd,hne,hb⟩)
        · exact absurd (hds.symm.trans hnone) (by simp)
        · obtain rfl := Option.some.inj (hds.symm.trans hds')
          obtain ⟨l,hl,hal⟩ := hto a ha
          rw [if_pos rfl] at hal
          exact ⟨l,hl,by simp [← Option.some.inj hal]⟩
        · obtain rfl := Option.some.inj (hds.symm.trans hds')
          obtain ⟨l,hl,hdl⟩ := hto _ hd
          rw [if_neg hne] at hdl
          exact ⟨l,hl,(ih hdl).mpr hb⟩

end JustMail.Foundation
