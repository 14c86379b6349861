import JustMail.Foundation.CodeUnits
import JustMail.Foundation.Folding

/-! Well-formed UTF-16, its transport as UTF-8 bytes, and where a well-formed
string may be cut. -/
namespace JustMail.Foundation

def isHigh (c : CodeUnit) : Bool := 0xD800 ≤ c && c ≤ 0xDBFF
def isLow (c : CodeUnit) : Bool := 0xDC00 ≤ c && c ≤ 0xDFFF

/-- Every surrogate is half of a pair. -/
def wellFormed : JsString → Bool
  | [] => true
  | [c] => !isHigh c && !isLow c
  | c :: d :: s => if isHigh c then isLow d && wellFormed s else !isLow c && wellFormed (d :: s)

def pairScalar (hi lo : CodeUnit) : Char :=
  Char.ofNat (0x10000 + (hi.toNat - 0xD800) * 0x400 + (lo.toNat - 0xDC00))

def replacement : Char := Char.ofNat 0xFFFD

/-- The scalar values of a string; a lone surrogate becomes U+FFFD. -/
def scalars : JsString → List Char
  | [] => []
  | [c] => [if isHigh c || isLow c then replacement else Char.ofNat c.toNat]
  | c :: d :: s =>
    if isHigh c then
      if isLow d then pairScalar c d :: scalars s else replacement :: scalars (d :: s)
    else (if isLow c then replacement else Char.ofNat c.toNat) :: scalars (d :: s)

/-- The body of a request made from a string. -/
def encodeUtf8 (s : JsString) : ByteArray := (String.ofList (scalars s)).toUTF8

/-- The text of a response body, for bytes that are valid UTF-8. -/
def decodeUtf8 (body : ByteArray) : Option JsString := (String.fromUTF8? body).map fun t => t.toList.flatMap utf16

theorem decodeUtf8_encodeUtf8 (s : JsString) : decodeUtf8 (encodeUtf8 s) = some ((scalars s).flatMap utf16) := by
  have h : ∀ t : String, String.fromUTF8? t.toUTF8 = some t := fun t => dif_pos t.isValidUTF8
  rw [decodeUtf8,encodeUtf8,h]
  simp

section Scalars
variable {c : CodeUnit}

private theorem high_range (h : isHigh c = true) : 0xD800 ≤ c.toNat ∧ c.toNat ≤ 0xDBFF := by
  simpa [isHigh,UInt16.le_iff_toNat_le] using h

private theorem low_range (h : isLow c = true) : 0xDC00 ≤ c.toNat ∧ c.toNat ≤ 0xDFFF := by
  simpa [isLow,UInt16.le_iff_toNat_le] using h

theorem isLow_of_isHigh (h : isHigh c = true) : isLow c = false := by
  rw [Bool.eq_false_iff]
  intro hl
  have := high_range h
  have := low_range hl
  omega

private theorem toNat_ofNat {n : Nat} (h : n.isValidChar) : (Char.ofNat n).toNat = n := by
  rw [Char.ofNat,dif_pos h]
  rfl

theorem utf16_pairScalar {hi lo : CodeUnit} (hh : isHigh hi = true) (hl : isLow lo = true) :
    utf16 (pairScalar hi lo) = [hi,lo] := by
  obtain ⟨h1,h2⟩ := high_range hh
  obtain ⟨l1,l2⟩ := low_range hl
  rw [pairScalar,utf16,toNat_ofNat (by right; omega),if_neg (by omega)]
  have hhi : 0xD800 + (0x10000 + (hi.toNat - 0xD800) * 0x400 + (lo.toNat - 0xDC00) - 0x10000) / 0x400 = hi.toNat := by
    omega
  have hlo : 0xDC00 + (0x10000 + (hi.toNat - 0xD800) * 0x400 + (lo.toNat - 0xDC00) - 0x10000) % 0x400 = lo.toNat := by
    omega
  rw [hhi,hlo]
  simp

theorem utf16_ofNat (hh : isHigh c = false) (hl : isLow c = false) :
    utf16 (Char.ofNat c.toNat) = [c] := by
  have hlt : c.toNat < 0x10000 := c.toNat_lt
  have hvalid : c.toNat.isValidChar := by
    simp only [isHigh,isLow,Bool.and_eq_false_iff,decide_eq_false_iff_not,UInt16.le_iff_toNat_le] at hh hl
    simp at hh hl
    simp only [Nat.isValidChar]
    omega
  rw [utf16,toNat_ofNat hvalid,if_pos hlt,unit,toNat_ofNat hvalid]
  simp

theorem utf16_replacement : utf16 replacement = [0xFFFD] := by decide

private theorem not_replacement (h : isHigh c = true ∨ isLow c = true) : 0xFFFD ≠ c := by
  rintro rfl
  exact absurd h (by decide)

private theorem scalars_plain (hc : isHigh c = false) (s : JsString) :
    (scalars (c :: s)).flatMap utf16 = (if isLow c then 0xFFFD else c) :: (scalars s).flatMap utf16 := by
  have hhead : utf16 (if isLow c then replacement else Char.ofNat c.toNat) = [if isLow c then 0xFFFD else c] := by
    cases hl : isLow c with
    | true => exact utf16_replacement
    | false => exact utf16_ofNat hc hl
  cases s with
  | nil => simp [scalars,hc,hhead]
  | cons d s => simp [scalars,hc,hhead]

/-- Text of ASCII is its own sequence of scalar values. -/
theorem scalars_ascii {s : JsString} (hs : ∀ c ∈ s, c < 128) : scalars s = s.map fun c => Char.ofNat c.toNat := by
  induction s with
  | nil => rfl
  | cons c s ih =>
    have hplain : isHigh c = false ∧ isLow c = false := by
      have hc := UInt16.lt_iff_toNat_lt.mp (hs c List.mem_cons_self)
      simp only [isHigh,isLow,UInt16.le_iff_toNat_le,Bool.and_eq_false_iff,decide_eq_false_iff_not] at hc ⊢
      change c.toNat < 128 at hc
      exact ⟨.inl (by change ¬0xD800 ≤ c.toNat; omega),.inl (by change ¬0xDC00 ≤ c.toNat; omega)⟩
    have hrest := ih fun d hd => hs d (List.mem_cons_of_mem _ hd)
    cases s with
    | nil => simp [scalars,hplain]
    | cons d s =>
      rw [scalars,hrest]
      simp [hplain]

/-- One byte for each unit of ASCII. -/
theorem size_encodeUtf8_ascii {s : JsString} (hs : ∀ c ∈ s, c < 128) : (encodeUtf8 s).size = s.length := by
  have hone : ∀ k < 128, (Char.ofNat k).utf8Size = 1 := by decide
  rw [encodeUtf8,scalars_ascii hs]
  induction s with
  | nil => simp
  | cons c s ih =>
    have hc := hone c.toNat (UInt16.lt_iff_toNat_lt.mp (hs c List.mem_cons_self))
    have hrest := ih fun d hd => hs d (List.mem_cons_of_mem _ hd)
    simp only [List.utf8Encode,String.toUTF8_eq_toByteArray,String.toByteArray_ofList,List.size_toByteArray,
      List.map_cons,List.flatMap_cons,List.length_append,String.length_utf8EncodeChar,List.length_cons] at hrest ⊢
    omega

theorem wellFormed_plain (hc : isHigh c = false) (s : JsString) :
    wellFormed (c :: s) = (!isLow c && wellFormed s) := by
  cases s with
  | nil => simp [wellFormed,hc]
  | cons d s => simp [wellFormed,hc]

theorem wellFormed_pair (hc : isHigh c = true) (d : CodeUnit) (s : JsString) :
    wellFormed (c :: d :: s) = (isLow d && wellFormed s) := by
  simp [wellFormed,hc]

/-- Text survives the transport exactly when it is well formed. -/
theorem flatMap_scalars_iff (s : JsString) : (scalars s).flatMap utf16 = s ↔ wellFormed s = true := by
  fun_induction wellFormed s with
  | case1 => simp [scalars]
  | case2 c =>
    by_cases hs : isHigh c = true ∨ isLow c = true
    · have hne := not_replacement hs
      rcases hs with hs | hs <;> simp [scalars,hs,utf16_replacement,hne]
    · rw [not_or,Bool.not_eq_true,Bool.not_eq_true] at hs
      simp [scalars,hs,utf16_ofNat]
  | case3 c d s hc ih =>
    cases hd : isLow d with
    | true => simp [scalars,hc,hd,utf16_pairScalar,ih]
    | false => simp [scalars,hc,hd,utf16_replacement,not_replacement (.inl hc)]
  | case4 c d s hc ih =>
    rw [scalars_plain (by simpa using hc),List.cons.injEq,ih]
    cases hl : isLow c with
    | true => simp [not_replacement (.inr hl)]
    | false => simp

theorem transport_iff (s : JsString) : decodeUtf8 (encodeUtf8 s) = some s ↔ wellFormed s = true := by
  rw [decodeUtf8_encodeUtf8,Option.some_inj,flatMap_scalars_iff]

/-- A cut before index `p` separates the halves of a pair. -/
def splitsPair (s : JsString) (p : Nat) : Bool := s[p-1]?.any isHigh && s[p]?.any isLow

private theorem isHigh_of_isLow {c : CodeUnit} (h : isLow c = true) : isHigh c = false := by
  rw [Bool.eq_false_iff]
  intro hh
  rw [isLow_of_isHigh hh] at h
  exact absurd h (by decide)

/-- Cutting a well-formed string leaves two well-formed parts, or a first part that
ends in half a pair. -/
theorem wellFormed_cut {s : JsString} (hs : wellFormed s = true) {p : Nat} (hp : 0 < p) (hlen : p < s.length) :
    if splitsPair s p then wellFormed (s.take p) = false
    else wellFormed (s.take p) = true ∧ wellFormed (s.drop p) = true := by
  fun_induction wellFormed s generalizing p with
  | case1 => simp at hlen
  | case2 c =>
    rw [List.length_singleton] at hlen
    omega
  | case3 c d s hc ih =>
    rw [Bool.and_eq_true] at hs
    obtain ⟨hd,hs⟩ := hs
    match p, hp with
    | 1, _ => simp [splitsPair,hc,hd,wellFormed]
    | 2, _ => simp [splitsPair,isHigh_of_isLow hd,wellFormed,hc,hd,hs]
    | q+3, _ =>
      have hq : q+1 < s.length := by
        simp only [List.length_cons] at hlen
        omega
      have h := ih hs (p := q+1) (by omega) hq
      rw [show splitsPair (c :: d :: s) (q+3) = splitsPair s (q+1) from rfl]
      simpa [wellFormed_pair hc,hd] using h
  | case4 c d s hc ih =>
    rw [Bool.not_eq_true] at hc
    rw [Bool.and_eq_true] at hs
    obtain ⟨hl,hs⟩ := hs
    match p, hp with
    | 1, _ => simpa [splitsPair,hc,wellFormed,hs] using hl
    | q+2, _ =>
      have h := ih hs (p := q+1) (by omega) (by simpa using hlen)
      rw [show splitsPair (c :: d :: s) (q+2) = splitsPair (d :: s) (q+1) from rfl]
      simpa only [List.take_succ_cons,List.drop_succ_cons,wellFormed_plain hc,hl,Bool.true_and] using h

/-- A unit outside the surrogates separates what stands around it. -/
theorem wellFormed_append_plain {c : CodeUnit} (hh : isHigh c = false) (hl : isLow c = false) (s t : JsString) :
    wellFormed (s ++ c :: t) = (wellFormed s && wellFormed t) := by
  fun_induction wellFormed s with
  | case1 => simp [wellFormed_plain hh,hl]
  | case2 d =>
    cases hd : isHigh d with
    | true => simp [wellFormed_pair hd,hl]
    | false => simp [wellFormed_plain hd,wellFormed_plain hh,hl]
  | case3 d e s hd ih => simp [wellFormed_pair hd,ih,Bool.and_assoc]
  | case4 d e s hd ih =>
    rw [Bool.not_eq_true] at hd
    rw [List.cons_append,wellFormed_plain hd,ih,Bool.and_assoc]

section Folding
variable {k : Nat}

/-- The cuts at the multiples of `k` after `a` are those of the rest of the string. -/
private theorem splitsPair_drop (hk : 0 < k) (a : Nat) (s : JsString) :
    (∀ j, a + k*(j+1) < s.length → splitsPair s (a + k*(j+1)) = false) ↔
      ∀ j, k*(j+1) < (s.drop a).length → splitsPair (s.drop a) (k*(j+1)) = false := by
  refine forall_congr' fun j => ?_
  have hpos : 0 < k*(j+1) := Nat.mul_pos hk (by omega)
  have hsame : splitsPair (s.drop a) (k*(j+1)) = splitsPair s (a + k*(j+1)) := by
    rw [splitsPair,splitsPair,List.getElem?_drop,List.getElem?_drop,Nat.add_sub_assoc hpos]
  rw [hsame,List.length_drop]
  exact imp_congr_left (by omega)

private theorem wellFormed_cut_iff {s : JsString} (hs : wellFormed s = true) {p : Nat} (hp : 0 < p)
    (hlen : p < s.length) {P Q : Prop} (h : wellFormed (s.drop p) = true → (P ↔ Q)) :
    (wellFormed (s.take p) = true ∧ P) ↔ (splitsPair s p = false ∧ Q) := by
  have hcut := wellFormed_cut hs hp hlen
  cases hsplit : splitsPair s p with
  | true =>
    rw [hsplit,if_pos rfl] at hcut
    simp [hcut]
  | false =>
    rw [hsplit,if_neg (by decide)] at hcut
    simp [hcut.1,h hcut.2]

private theorem wellFormed_chunkLoop (hk : 0 < k) (fuel : Nat) (s : JsString) (hfuel : s.length ≤ fuel)
    (hs : wellFormed s = true) :
    (∀ q ∈ chunkLoop k fuel s, wellFormed q = true) ↔
      ∀ j, k*(j+1) < s.length → splitsPair s (k*(j+1)) = false := by
  induction fuel generalizing s with
  | zero =>
    obtain rfl : s = [] := List.length_eq_zero_iff.mp (by omega)
    simp [chunkLoop]
  | succ fuel ih =>
    rw [chunkLoop]
    by_cases hnil : s = []
    · simp [hnil]
    rw [if_neg (by simpa using hnil),List.forall_mem_cons]
    by_cases hlen : k < s.length
    · rw [← Nat.and_forall_add_one]
      have hnext : ∀ j, k*(j+1+1) = k + k*(j+1) := fun j => by rw [Nat.mul_succ k (j+1),Nat.add_comm]
      simp only [hnext]
      rw [splitsPair_drop hk k s]
      simp only [Nat.zero_add,Nat.mul_one,hlen,forall_const]
      exact wellFormed_cut_iff hs hk hlen (ih (s.drop k) (by rw [List.length_drop]; omega))
    · have hdrop : s.drop k = [] := List.drop_eq_nil_iff.mpr (by omega)
      have hloop : chunkLoop k fuel ([] : JsString) = [] := by cases fuel <;> simp [chunkLoop]
      rw [hdrop,hloop,List.take_of_length_le (by omega)]
      refine iff_of_true ⟨hs,by simp⟩ fun j hj => absurd hj ?_
      have : k*1 ≤ k*(j+1) := Nat.mul_le_mul_left k (by omega)
      omega

/-- The physical lines of a well-formed line are well formed exactly when no fold
point falls inside a surrogate pair. -/
theorem wellFormed_foldedLines {blank : CodeUnit} (hbh : isHigh blank = false) (hbl : isLow blank = false)
    {first rest : Nat} (hf : 0 < first) (hr : 0 < rest) {line : JsString} (hline : wellFormed line = true) :
    (∀ p ∈ foldedLines blank first rest line, wellFormed p = true) ↔
      ∀ j, first + rest*j < line.length → splitsPair line (first + rest*j) = false := by
  unfold foldedLines
  split
  · rename_i hlen
    refine iff_of_true (by simpa using hline) fun j hj => absurd hj ?_
    omega
  · rename_i hlen
    have hblank : ∀ q, wellFormed (blank :: q) = wellFormed q := fun q => by simp [wellFormed_plain hbh,hbl]
    rw [List.forall_mem_cons,List.forall_mem_map,← Nat.and_forall_add_one,splitsPair_drop hr first line]
    simp only [hblank,Nat.mul_zero,Nat.add_zero,show first < line.length by omega,forall_const]
    exact wellFormed_cut_iff hline hf (by omega) fun hdrop => wellFormed_chunkLoop hr _ _ le_rfl hdrop

end Folding

end Scalars

end JustMail.Foundation
