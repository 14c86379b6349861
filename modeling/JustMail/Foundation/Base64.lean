import JustMail.Foundation.CodeUnits

/-! Writing bytes in base64, with the digits of either alphabet. -/
namespace JustMail.Foundation

/-- The digit for a value below 64; the last two differ between the alphabets. -/
def base64Digit (plus slash : CodeUnit) (n : Nat) : CodeUnit :=
  if n < 26 then (65 + n).toUInt16
  else if n < 52 then (97 + (n - 26)).toUInt16
  else if n < 62 then (48 + (n - 52)).toUInt16
  else if n = 62 then plus
  else slash

/-- Three bytes in four digits, what is left at the end in two or three. -/
def base64Units (digit : Nat → CodeUnit) : List UInt8 → JsString
  | a :: b :: c :: rest =>
    digit (a.toNat / 4) :: digit (a.toNat % 4 * 16 + b.toNat / 16) :: digit (b.toNat % 16 * 4 + c.toNat / 64) ::
      digit (c.toNat % 64) :: base64Units digit rest
  | [a,b] => [digit (a.toNat / 4),digit (a.toNat % 4 * 16 + b.toNat / 16),digit (b.toNat % 16 * 4)]
  | [a] => [digit (a.toNat / 4),digit (a.toNat % 4 * 16)]
  | [] => []

/-- `buffer.toString("base64url")`. -/
def base64url (bytes : List UInt8) : JsString := base64Units (base64Digit (unit '-') (unit '_')) bytes

/-- `buffer.toString("base64")`, filled up with `=` to whole groups. -/
def base64 (bytes : List UInt8) : JsString :=
  let units := base64Units (base64Digit (unit '+') (unit '/')) bytes
  units ++ List.replicate ((4 - units.length % 4) % 4) (unit '=')

section Reading
variable {digit : Nat → CodeUnit} {bytes : List UInt8} {c : CodeUnit}

theorem sextet_base64Digit_url {n : Nat} (hn : n < 64) : sextet (base64Digit (unit '-') (unit '_') n) = some n := by
  revert n
  decide

/-- Reading gives the bytes that were written. -/
theorem sextetBytes_base64Units (hdigit : ∀ n < 64, sextet (digit n) = some n) (bytes : List UInt8) :
    sextetBytes ((base64Units digit bytes).filterMap sextet) = bytes.map (·.toNat) := by
  fun_induction base64Units digit bytes with
  | case1 a b c rest ih =>
    have ha := a.toNat_lt
    have hb := b.toNat_lt
    have hc := c.toNat_lt
    simp only [List.filterMap_cons,hdigit (a.toNat / 4) (by omega),hdigit (a.toNat % 4 * 16 + b.toNat / 16) (by omega),
      hdigit (b.toNat % 16 * 4 + c.toNat / 64) (by omega),hdigit (c.toNat % 64) (by omega),sextetBytes,ih,List.map_cons]
    refine congrArg₂ _ (by omega) (congrArg₂ _ (by omega) (congrArg₂ _ (by omega) rfl))
  | case2 a b =>
    have ha := a.toNat_lt
    have hb := b.toNat_lt
    simp only [List.filterMap_cons,hdigit (a.toNat / 4) (by omega),hdigit (a.toNat % 4 * 16 + b.toNat / 16) (by omega),
      hdigit (b.toNat % 16 * 4) (by omega),sextetBytes,List.map_cons,List.filterMap_nil,List.map_nil]
    refine congrArg₂ _ (by omega) (congrArg₂ _ (by omega) rfl)
  | case3 a =>
    have ha := a.toNat_lt
    simp only [List.filterMap_cons,hdigit (a.toNat / 4) (by omega),hdigit (a.toNat % 4 * 16) (by omega),sextetBytes,
      List.map_cons,List.filterMap_nil,List.map_nil]
    refine congrArg₂ _ (by omega) rfl
  | case4 => rfl

theorem bufferFromBase64_base64url (bytes : List UInt8) : bufferFromBase64 (base64url bytes) = bytes.map (·.toNat) :=
  sextetBytes_base64Units (fun _ hn => sextet_base64Digit_url hn) bytes

theorem base64Units_length (digit : Nat → CodeUnit) (bytes : List UInt8) :
    (base64Units digit bytes).length = (bytes.length * 4 + 2) / 3 := by
  fun_induction base64Units digit bytes with
  | case1 a b c rest ih =>
    simp only [List.length_cons,ih]
    omega
  | case2 => simp
  | case3 => simp
  | case4 => rfl

/-- Every unit is a digit of a value below 64. -/
theorem mem_base64Units (hc : c ∈ base64Units digit bytes) : ∃ n < 64, c = digit n := by
  fun_induction base64Units digit bytes with
  | case1 a b d rest ih =>
    have ha := a.toNat_lt
    have hb := b.toNat_lt
    have hd := d.toNat_lt
    simp only [List.mem_cons] at hc
    rcases hc with rfl | rfl | rfl | rfl | hc
    · exact ⟨_,by omega,rfl⟩
    · exact ⟨_,by omega,rfl⟩
    · exact ⟨_,by omega,rfl⟩
    · exact ⟨_,by omega,rfl⟩
    · exact ih hc
  | case2 a b =>
    have ha := a.toNat_lt
    have hb := b.toNat_lt
    simp only [List.mem_cons,List.not_mem_nil,or_false] at hc
    rcases hc with rfl | rfl | rfl
    · exact ⟨_,by omega,rfl⟩
    · exact ⟨_,by omega,rfl⟩
    · exact ⟨_,by omega,rfl⟩
  | case3 a =>
    have ha := a.toNat_lt
    simp only [List.mem_cons,List.not_mem_nil,or_false] at hc
    rcases hc with rfl | rfl
    · exact ⟨_,by omega,rfl⟩
    · exact ⟨_,by omega,rfl⟩
  | case4 => exact absurd hc List.not_mem_nil

/-- Text in base64url is ASCII without a full stop. -/
theorem base64url_units (hc : c ∈ base64url bytes) : c < 128 ∧ c ≠ unit '.' := by
  have hdigits : ∀ n < 64, base64Digit (unit '-') (unit '_') n < 128 ∧ base64Digit (unit '-') (unit '_') n ≠ unit '.' := by
    decide
  obtain ⟨n,hn,rfl⟩ := mem_base64Units hc
  exact hdigits n hn

end Reading
end JustMail.Foundation
