import Mathlib.Algebra.GroupWithZero.Nat
import Mathlib.Data.List.Basic

/-! Escaping with one escape symbol, over an arbitrary alphabet. A symbol with a
code is written as the escape symbol followed by its code. -/
namespace JustMail.Foundation
variable {α : Type}

def escapeWith (esc : α) (code : α → Option α) (s : List α) : List α :=
  s.flatMap fun c => match code c with
    | some d => [esc,d]
    | none => [c]

/-- Reading back, left to right. An escape symbol at the very end stands for itself. -/
def unescapeWith [DecidableEq α] (esc : α) (decode : α → α) : List α → List α
  | [] => []
  | [c] => [c]
  | c :: d :: s =>
    if c = esc then decode d :: unescapeWith esc decode s else c :: unescapeWith esc decode (d :: s)

/-- Split at every delimiter that no escape symbol precedes; `cur` is the part
being collected. -/
def splitUnescapedFrom [DecidableEq α] (esc delim : α) (cur : List α) : List α → List (List α)
  | [] => [cur]
  | [c] => if c = delim then [cur,[]] else [cur ++ [c]]
  | c :: d :: s =>
    if c = esc then splitUnescapedFrom esc delim (cur ++ [c,d]) s
    else if c = delim then cur :: splitUnescapedFrom esc delim [] (d :: s)
    else splitUnescapedFrom esc delim (cur ++ [c]) (d :: s)

/-- The two halves of a code are inverse, and the escape symbol itself has a code. -/
structure EscapeCode (esc : α) (code : α → Option α) (decode : α → α) : Prop where
  inverse {c d : α} : code c = some d → decode d = c
  escaped : code esc ≠ none

section Code
variable {esc delim : α} {code : α → Option α} {decode : α → α} {s : List α}

@[simp] theorem escapeWith_nil : escapeWith esc code [] = [] := rfl

theorem escapeWith_cons (c : α) (s : List α) :
    escapeWith esc code (c :: s) =
      (match code c with | some d => [esc,d] | none => [c]) ++ escapeWith esc code s := by
  simp [escapeWith,List.flatMap_cons]

/-- Escaped text holds a symbol only if it is the escape symbol, a code, or a
symbol that needs none. -/
theorem notMem_escapeWith {x : α} (s : List α) (hesc : x ≠ esc) (hcode : ∀ c, code c ≠ some x)
    (hs : x ∈ s → code x ≠ none) : x ∉ escapeWith esc code s := by
  intro hx
  obtain ⟨c,hc,hm⟩ := List.mem_flatMap.mp hx
  cases he : code c with
  | some d =>
    simp only [he,List.mem_cons,List.not_mem_nil,or_false] at hm
    rcases hm with rfl | rfl
    · exact hesc rfl
    · exact hcode c he
  | none =>
    simp only [he,List.mem_singleton] at hm
    subst hm
    exact hs hc he

variable [DecidableEq α]

@[simp] theorem unescapeWith_nil : unescapeWith esc decode [] = [] := rfl

theorem unescapeWith_plain {c : α} (h : c ≠ esc) (s : List α) :
    unescapeWith esc decode (c :: s) = c :: unescapeWith esc decode s := by
  cases s with
  | nil => rfl
  | cons d s => rw [unescapeWith,if_neg h]

theorem unescapeWith_pair (d : α) (s : List α) :
    unescapeWith esc decode (esc :: d :: s) = decode d :: unescapeWith esc decode s := by
  rw [unescapeWith,if_pos rfl]

/-- Escaped text is read back symbol by symbol, whatever follows it. -/
theorem unescape_escape_append (h : EscapeCode esc code decode) (s t : List α) :
    unescapeWith esc decode (escapeWith esc code s ++ t) = s ++ unescapeWith esc decode t := by
  induction s with
  | nil => rfl
  | cons c s ih =>
    rw [escapeWith_cons,List.append_assoc]
    cases hc : code c with
    | some d =>
      change unescapeWith esc decode (esc :: d :: (escapeWith esc code s ++ t)) = _
      rw [unescapeWith_pair,h.inverse hc,ih]
      rfl
    | none =>
      have hne : c ≠ esc := fun he => h.escaped (he ▸ hc)
      change unescapeWith esc decode (c :: (escapeWith esc code s ++ t)) = _
      rw [unescapeWith_plain hne,ih]
      rfl

theorem unescape_escape (h : EscapeCode esc code decode) (s : List α) :
    unescapeWith esc decode (escapeWith esc code s) = s := by
  simpa using unescape_escape_append h s []

theorem splitUnescapedFrom_plain {c : α} (he : c ≠ esc) (hd : c ≠ delim) (cur s : List α) :
    splitUnescapedFrom esc delim cur (c :: s) = splitUnescapedFrom esc delim (cur ++ [c]) s := by
  cases s with
  | nil => simp [splitUnescapedFrom,hd]
  | cons d s => rw [splitUnescapedFrom,if_neg he,if_neg hd]

/-- Text without the delimiter is one part, whatever escapes it holds. -/
theorem splitUnescapedFrom_of_notMem (cur s : List α) (h : delim ∉ s) :
    splitUnescapedFrom esc delim cur s = [cur ++ s] := by
  fun_induction splitUnescapedFrom esc delim cur s with
  | case1 => simp
  | case2 => simp_all
  | case3 => simp_all
  | case4 cur d s ih =>
    rw [ih fun hm => h (by simp [hm])]
    simp
  | case5 => simp_all
  | case6 cur c d s he hd ih =>
    rw [ih fun hm => h (List.mem_cons_of_mem _ hm)]
    simp

/-- A delimiter after text that holds neither special symbol ends a part. -/
theorem splitUnescapedFrom_delim (hne : delim ≠ esc) (hd : delim ∉ s) (he : esc ∉ s)
    (cur t : List α) :
    splitUnescapedFrom esc delim cur (s ++ delim :: t) = (cur ++ s) :: splitUnescapedFrom esc delim [] t := by
  induction s generalizing cur with
  | nil => cases t <;> simp [splitUnescapedFrom,hne]
  | cons c s ih =>
    rw [List.mem_cons,not_or] at hd he
    rw [List.cons_append,splitUnescapedFrom_plain (Ne.symm he.1) (Ne.symm hd.1),ih hd.2 he.2]
    simp

theorem splitUnescapedFrom_escape (hesc : code esc ≠ none) (hdelim : code delim ≠ none)
    (cur s t : List α) :
    splitUnescapedFrom esc delim cur (escapeWith esc code s ++ t) =
      splitUnescapedFrom esc delim (cur ++ escapeWith esc code s) t := by
  induction s generalizing cur with
  | nil => simp
  | cons c s ih =>
    rw [escapeWith_cons]
    cases hc : code c with
    | some d =>
      change splitUnescapedFrom esc delim cur (esc :: d :: (escapeWith esc code s ++ t)) = _
      rw [splitUnescapedFrom,if_pos rfl,ih]
      simp
    | none =>
      have he : c ≠ esc := fun h => hesc (h ▸ hc)
      have hd : c ≠ delim := fun h => hdelim (h ▸ hc)
      change splitUnescapedFrom esc delim cur (c :: (escapeWith esc code s ++ t)) = _
      rw [splitUnescapedFrom_plain he hd,ih]
      simp

/-- The parts are cut out at all but the delimiters that stay. -/
theorem splitUnescapedFrom_count (hne : delim ≠ esc) (cur s : List α) : cur.count delim + s.count delim + 1 =
    ((splitUnescapedFrom esc delim cur s).map (List.count delim)).sum + (splitUnescapedFrom esc delim cur s).length := by
  fun_induction splitUnescapedFrom esc delim cur s with
  | case1 cur => simp
  | case2 cur => simp
  | case3 cur c hc => simp [hc]
  | case4 cur d s ih =>
    rw [← ih,List.count_append,List.count_cons_of_ne (Ne.symm hne),List.count_cons_of_ne (Ne.symm hne),List.count_cons,
      List.count_singleton]
    omega
  | case5 cur d s he ih =>
    rw [List.map_cons,List.sum_cons,List.length_cons,List.count_cons_self]
    simp only [List.count_nil] at ih
    omega
  | case6 cur c d s he hd ih =>
    rw [← ih,List.count_append,List.count_cons_of_ne hd,List.count_cons_of_ne hd]
    simp

theorem length_splitUnescapedFrom_pos (cur s : List α) : 0 < (splitUnescapedFrom esc delim cur s).length := by
  fun_induction splitUnescapedFrom esc delim cur s with
  | case1 cur => exact Nat.one_pos
  | case2 cur => exact Nat.two_pos
  | case3 cur c hc => exact Nat.one_pos
  | case4 cur d s ih => exact ih
  | case5 cur d s he ih => exact Nat.succ_pos _
  | case6 cur c d s he hd ih => exact ih

/-- How many parts there are does not depend on what has been collected. -/
theorem length_splitUnescapedFrom (cur cur' s : List α) :
    (splitUnescapedFrom esc delim cur s).length = (splitUnescapedFrom esc delim cur' s).length := by
  fun_induction splitUnescapedFrom esc delim cur s generalizing cur' with
  | case1 cur => rfl
  | case2 cur => simp [splitUnescapedFrom]
  | case3 cur c hc => simp [splitUnescapedFrom,hc]
  | case4 cur d s ih =>
    rw [splitUnescapedFrom,if_pos rfl]
    exact ih _
  | case5 cur d s he ih =>
    rw [splitUnescapedFrom,if_neg he,if_pos rfl]
    exact congrArg (· + 1) rfl
  | case6 cur c d s he hd ih =>
    rw [splitUnescapedFrom,if_neg he,if_neg hd]
    exact ih _

/-- The text is as many delimiters, and what comes after it is read as if it were not there. -/
def Splits (esc delim : α) (n : Nat) (s : List α) : Prop :=
  ∀ cur t, (splitUnescapedFrom esc delim cur (s ++ t)).length = n + (splitUnescapedFrom esc delim [] t).length

/-- The text stays in one part. -/
def Whole (esc delim : α) (s : List α) : Prop :=
  ∀ cur t, splitUnescapedFrom esc delim cur (s ++ t) = splitUnescapedFrom esc delim (cur ++ s) t

theorem Whole.append {s t : List α} (hs : Whole esc delim s) (ht : Whole esc delim t) : Whole esc delim (s ++ t) := by
  intro cur u
  rw [List.append_assoc,hs,ht,List.append_assoc]

theorem whole_plain (hd : delim ∉ s) (he : esc ∉ s) : Whole esc delim s := by
  intro cur t
  induction s generalizing cur with
  | nil => simp
  | cons c s ih =>
    rw [List.mem_cons,not_or] at hd he
    rw [List.cons_append,splitUnescapedFrom_plain (Ne.symm he.1) (Ne.symm hd.1),ih hd.2 he.2]
    simp

theorem Whole.ended (h : Whole esc delim s) (hne : delim ≠ esc) (cur t : List α) :
    splitUnescapedFrom esc delim cur (s ++ delim :: t) = (cur ++ s) :: splitUnescapedFrom esc delim [] t := by
  rw [h]
  exact splitUnescapedFrom_delim hne List.not_mem_nil List.not_mem_nil (cur ++ s) t |>.trans (by rw [List.append_nil])

theorem Whole.parts (h : Whole esc delim s) (cur : List α) : splitUnescapedFrom esc delim cur s = [cur ++ s] := by
  have hparts := h cur []
  rwa [List.append_nil] at hparts

/-- Parts joined by the delimiter are split again where they were joined. -/
theorem splitUnescapedFrom_joined (hne : delim ≠ esc) {parts : List (List α)} (hparts : parts ≠ [])
    (h : ∀ part ∈ parts, Whole esc delim part) : splitUnescapedFrom esc delim [] ([delim].intercalate parts) = parts := by
  induction parts with
  | nil => exact absurd rfl hparts
  | cons part parts ih =>
    have hpart : Whole esc delim part := h part List.mem_cons_self
    cases parts with
    | nil =>
      rw [List.intercalate_singleton]
      exact hpart.parts []
    | cons next parts =>
      rw [List.intercalate_cons_cons,List.append_assoc,List.singleton_append,hpart.ended hne,List.nil_append]
      exact congrArg _ (ih (by simp) fun q hq => h q (List.mem_cons_of_mem _ hq))

theorem Whole.splits (h : Whole esc delim s) : Splits esc delim 0 s := by
  intro cur t
  rw [h,Nat.zero_add]
  exact length_splitUnescapedFrom _ _ _

theorem Splits.append {m n : Nat} {s t : List α} (hs : Splits esc delim m s) (ht : Splits esc delim n t) :
    Splits esc delim (m+n) (s ++ t) := by
  intro cur u
  rw [List.append_assoc,hs,ht,Nat.add_assoc]

theorem splits_delim (hne : delim ≠ esc) : Splits esc delim 1 [delim] := by
  intro cur t
  have hpart : splitUnescapedFrom esc delim cur ([delim] ++ t) = _ := splitUnescapedFrom_delim hne List.not_mem_nil List.not_mem_nil cur t
  rw [hpart,List.length_cons,Nat.add_comm]

/-- Text with a plain symbol behind it, which ends what an escape symbol could begin. -/
theorem length_closed {q : α} (hne : delim ≠ esc) (hd : q ≠ delim) (he : q ≠ esc) (cur s t : List α) :
    (splitUnescapedFrom esc delim cur (s ++ q :: t)).length + 1 =
      (splitUnescapedFrom esc delim cur s).length + (splitUnescapedFrom esc delim [] t).length := by
  have hplain (cur : List α) : (splitUnescapedFrom esc delim cur (q :: t)).length = (splitUnescapedFrom esc delim [] t).length := by
    rw [splitUnescapedFrom_plain he hd]
    exact length_splitUnescapedFrom _ _ _
  fun_induction splitUnescapedFrom esc delim cur s with
  | case1 cur =>
    rw [List.nil_append,hplain]
    exact Nat.add_comm _ _
  | case2 cur =>
    have hpart := splitUnescapedFrom_delim hne List.not_mem_nil List.not_mem_nil cur (q :: t)
    rw [List.nil_append] at hpart
    rw [List.singleton_append,hpart,List.length_cons,hplain]
    simp
    omega
  | case3 cur c hc =>
    by_cases hesc : c = esc
    · subst hesc
      rw [List.singleton_append,splitUnescapedFrom,if_pos rfl,length_splitUnescapedFrom _ []]
      exact Nat.add_comm _ _
    · rw [List.singleton_append,splitUnescapedFrom_plain hesc hc,hplain]
      exact Nat.add_comm _ _
  | case4 cur d s ih => simpa [splitUnescapedFrom] using ih
  | case5 cur d s hesc ih =>
    rw [List.cons_append,List.cons_append,splitUnescapedFrom,if_neg hesc,if_pos rfl,List.length_cons,List.length_cons]
    rw [List.cons_append] at ih
    omega
  | case6 cur c d s hesc hdelim ih => simpa [splitUnescapedFrom,hesc,hdelim] using ih

theorem splits_closed {q : α} (hne : delim ≠ esc) (hd : q ≠ delim) (he : q ≠ esc) (s : List α) :
    Splits esc delim ((splitUnescapedFrom esc delim [] s).length - 1) (s ++ [q]) := by
  intro cur t
  have hlength := length_closed hne hd he cur s t
  have hpos : 0 < (splitUnescapedFrom esc delim [] s).length := length_splitUnescapedFrom_pos [] s
  rw [length_splitUnescapedFrom cur [] s] at hlength
  rw [List.append_assoc]
  change (splitUnescapedFrom esc delim cur (s ++ q :: t)).length = _
  omega

/-- Text that is one part stays whole before such a symbol. -/
theorem whole_closed {q : α} (hd : q ≠ delim) (he : q ≠ esc) (h : (splitUnescapedFrom esc delim [] s).length = 1) :
    Whole esc delim (s ++ [q]) := by
  intro cur t
  rw [length_splitUnescapedFrom [] cur] at h
  rw [List.append_assoc]
  change splitUnescapedFrom esc delim cur (s ++ q :: t) = _
  fun_induction splitUnescapedFrom esc delim cur s with
  | case1 cur => exact splitUnescapedFrom_plain he hd cur t
  | case2 cur => simp at h
  | case3 cur c hc =>
    by_cases hesc : c = esc
    · subst hesc
      simp [splitUnescapedFrom]
    · rw [List.singleton_append,splitUnescapedFrom_plain hesc hc,splitUnescapedFrom_plain he hd]
      simp
  | case4 cur d s ih => simpa [splitUnescapedFrom] using ih h
  | case5 cur d s hesc ih =>
    have hpos : 0 < (splitUnescapedFrom esc delim [] (d :: s)).length := length_splitUnescapedFrom_pos [] (d :: s)
    rw [List.length_cons] at h
    omega
  | case6 cur c d s hesc hdelim ih => simpa [splitUnescapedFrom,hesc,hdelim] using ih h

end Code
end JustMail.Foundation
