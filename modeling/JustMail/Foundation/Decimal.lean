import JustMail.Foundation.CodeUnits

/-! Numbers in decimal, as JavaScript writes and pads them. -/
namespace JustMail.Foundation
variable {n : Nat}

/-- The unit of a number's last decimal digit. -/
def digit (n : Nat) : CodeUnit := (48 + n % 10).toUInt16

def decimalLoop : Nat → Nat → JsString
  | 0, _ => []
  | fuel+1, n => (if n < 10 then [] else decimalLoop fuel (n / 10)) ++ [digit n]

/-- `String(n)`. -/
def decimal (n : Nat) : JsString := decimalLoop (n+1) n

/-- `String(n)` of an integer. -/
def decimalInt (n : Int) : JsString := if n < 0 then js "-" ++ decimal n.natAbs else decimal n.natAbs

/-- `s.padStart(width, "0")`. -/
def padStart (width : Nat) (s : JsString) : JsString := List.replicate (width - s.length) (unit '0') ++ s

def isDigit (c : CodeUnit) : Bool := 48 ≤ c && c ≤ 57

private theorem decimalLoop_enough (a b n : Nat) (ha : n < a) (hb : n < b) : decimalLoop a n = decimalLoop b n := by
  induction a generalizing b n with
  | zero => omega
  | succ a ih =>
    cases b with
    | zero => omega
    | succ b =>
      rw [decimalLoop,decimalLoop]
      split
      · rfl
      · rw [ih b (n / 10) (by omega) (by omega)]

theorem decimal_of_lt (h : n < 10) : decimal n = [digit n] := by
  simp [decimal,decimalLoop,h]

theorem decimal_step (h : 10 ≤ n) : decimal n = decimal (n / 10) ++ [digit n] := by
  rw [decimal,decimalLoop,if_neg (by omega),decimal,decimalLoop_enough n (n / 10 + 1) (n / 10) (by omega) (by omega)]

theorem decimal_two (hlo : 10 ≤ n) (hhi : n < 100) : decimal n = [digit (n / 10),digit n] := by
  rw [decimal_step hlo,decimal_of_lt (by omega)]
  rfl

theorem decimal_four (hlo : 1000 ≤ n) (hhi : n < 10000) :
    decimal n = [digit (n / 1000),digit (n / 100),digit (n / 10),digit n] := by
  rw [decimal_step (by omega),decimal_step (n := n / 10) (by omega),decimal_two (by omega) (by omega)]
  simp [Nat.div_div_eq_div_mul]

theorem padStart_four (h : n < 10000) :
    padStart 4 (decimal n) = [digit (n / 1000),digit (n / 100),digit (n / 10),digit n] := by
  by_cases h1 : n < 10
  · rw [decimal_of_lt h1,show n / 1000 = 0 by omega,show n / 100 = 0 by omega,show n / 10 = 0 by omega]
    rfl
  by_cases h2 : n < 100
  · rw [decimal_two (by omega) h2,show n / 1000 = 0 by omega,show n / 100 = 0 by omega]
    rfl
  by_cases h3 : n < 1000
  · rw [decimal_step (by omega),decimal_two (n := n / 10) (by omega) (by omega),show n / 1000 = 0 by omega,
      Nat.div_div_eq_div_mul]
    rfl
  · rw [decimal_four (by omega) h]
    rfl

/-- Two-digit fields: `pad(n)`. -/
theorem padStart_two (h : n < 100) : padStart 2 (decimal n) = [digit (n / 10),digit n] := by
  by_cases h10 : n < 10
  · rw [decimal_of_lt h10,show n / 10 = 0 by omega]
    rfl
  · rw [decimal_two (by omega) h]
    rfl

theorem isDigit_digit (n : Nat) : isDigit (digit n) = true := by
  have h : ∀ k < 10, isDigit (48 + k).toUInt16 = true := by decide
  exact h (n % 10) (Nat.mod_lt _ (by decide))

/-- What holds of the ten digits. -/
theorem of_isDigit {p : CodeUnit → Prop} (hp : ∀ k < 10, p (digit k)) {c : CodeUnit} (h : isDigit c = true) : p c := by
  simp only [isDigit,Bool.and_eq_true,decide_eq_true_eq,UInt16.le_iff_toNat_le] at h
  obtain ⟨hlo,hhi⟩ := h
  change 48 ≤ c.toNat at hlo
  change c.toNat ≤ 57 at hhi
  have hc : c = digit (c.toNat - 48) := by
    rw [digit,Nat.mod_eq_of_lt (by omega),Nat.add_sub_cancel' hlo]
    simp
  rw [hc]
  exact hp _ (by omega)

private theorem decimalLoop_digits (fuel n : Nat) : ∀ c ∈ decimalLoop fuel n, isDigit c = true := by
  induction fuel generalizing n with
  | zero => simp [decimalLoop]
  | succ fuel ih =>
    intro c hc
    rw [decimalLoop,List.mem_append,List.mem_singleton] at hc
    rcases hc with hc | rfl
    · split at hc
      · simp at hc
      · exact ih (n / 10) c hc
    · exact isDigit_digit n

theorem decimal_digits (n : Nat) : ∀ c ∈ decimal n, isDigit c = true := decimalLoop_digits (n+1) n

theorem padStart_digits {width : Nat} {s : JsString} (h : ∀ c ∈ s, isDigit c = true) :
    ∀ c ∈ padStart width s, isDigit c = true := by
  intro c hc
  rcases List.mem_append.mp hc with hc | hc
  · obtain ⟨-,rfl⟩ := List.mem_replicate.mp hc
    decide
  · exact h c hc

theorem decimal_ne_nil (n : Nat) : decimal n ≠ [] := by
  by_cases h : n < 10
  · simp [decimal_of_lt h]
  · simp [decimal_step (Nat.le_of_not_lt h)]

/-- No leading zero. -/
theorem decimal_head (hn : n ≠ 0) : (decimal n).head? ≠ some (unit '0') := by
  induction n using Nat.strongRecOn with
  | ind n ih =>
    by_cases h : n < 10
    · have hdigits : ∀ k < 10, k ≠ 0 → some (digit k) ≠ some (unit '0') := by decide
      rw [decimal_of_lt h]
      exact hdigits n h hn
    · rw [decimal_step (by omega),List.head?_append_of_ne_nil _ (decimal_ne_nil _)]
      exact ih (n / 10) (by omega) (by omega)

/-- The number a run of decimal digits stands for. -/
def digitsValue (s : JsString) : Nat := s.foldl (fun n c => 10*n + (c.toNat - 48)) 0

theorem digit_toNat (n : Nat) : (digit n).toNat - 48 = n % 10 := by
  have h : ∀ k < 10, (48 + k).toUInt16.toNat - 48 = k := by decide
  exact h (n % 10) (Nat.mod_lt _ (by decide))

theorem digitsValue_append (s : JsString) (n : Nat) : digitsValue (s ++ [digit n]) = 10 * digitsValue s + n % 10 := by
  rw [digitsValue,List.foldl_append,List.foldl_cons,List.foldl_nil,digit_toNat]
  rfl

theorem digitsValue_decimal (n : Nat) : digitsValue (decimal n) = n := by
  induction n using Nat.strongRecOn with
  | ind n ih =>
    by_cases h : n < 10
    · rw [decimal_of_lt h]
      simpa [digitsValue,Nat.mod_eq_of_lt h] using digitsValue_append [] n
    · rw [decimal_step (by omega),digitsValue_append,ih (n / 10) (by omega)]
      omega

theorem decimal_injective : Function.Injective decimal := Function.LeftInverse.injective digitsValue_decimal

/-- `bytes=first-last` and `bytes=first-`. The ranges from the end and lists of ranges
are left out. -/
def parseByteRange (header : JsString) : Option (Nat × Option Nat) :=
  match (js "bytes=").isPrefixOf? header with
  | none => none
  | some range =>
    match cut (unit '-') range with
    | none => none
    | some (first,last) =>
      if first.isEmpty || !first.all isDigit || !last.all isDigit then none
      else some (digitsValue first,if last.isEmpty then none else some (digitsValue last))

theorem parseByteRange_append (first : Nat) {last : JsString} (hlast : last.all isDigit = true) :
    parseByteRange (js "bytes=" ++ decimal first ++ js "-" ++ last) =
      some (first,if last.isEmpty then none else some (digitsValue last)) := by
  have hdash : unit '-' ∉ decimal first := by
    intro hmem
    have hdigit : isDigit (unit '-') = false := by decide
    simp [decimal_digits first _ hmem] at hdigit
  have hfirst : (decimal first).all isDigit = true := List.all_eq_true.mpr (decimal_digits first)
  have hcut : cut (unit '-') (decimal first ++ (js "-" ++ last)) = some (decimal first,last) := cut_append hdash
  have hrange : (js "bytes=").isPrefixOf? (js "bytes=" ++ (decimal first ++ (js "-" ++ last))) =
    some (decimal first ++ (js "-" ++ last)) :=
    List.isPrefixOf?_eq_some_iff_append_eq.mpr rfl
  rw [List.append_assoc,List.append_assoc,parseByteRange,hrange]
  dsimp only
  rw [hcut]
  simp [decimal_ne_nil,hfirst,hlast,digitsValue_decimal]

theorem parseByteRange_decimal (first : Nat) (last : Option Nat) :
    parseByteRange (js "bytes=" ++ decimal first ++ js "-" ++ (last.map decimal).getD []) = some (first,last) := by
  cases last with
  | none => exact parseByteRange_append first rfl
  | some last =>
    have hlast : (decimal last).all isDigit = true := List.all_eq_true.mpr (decimal_digits last)
    simpa [decimal_ne_nil,digitsValue_decimal] using parseByteRange_append first hlast

end JustMail.Foundation
