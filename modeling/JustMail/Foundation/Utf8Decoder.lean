import JustMail.Foundation.Utf16

/-! Decoding bytes as UTF-8 where every maximal ill-formed part becomes U+FFFD,
`buffer.toString("utf8")`, and the bytes of a string, `Buffer.from(s)`. -/
namespace JustMail.Foundation

/-- A character begun: the bytes it still needs, the bounds of the next one, and the
bits read so far. Nothing is begun where no byte is needed. -/
structure Utf8State where
  needed : Nat := 0
  lower : Nat := 0x80
  upper : Nat := 0xBF
  code : Nat := 0

/-- The first byte of a character. -/
def utf8Start (b : UInt8) : List Char × Utf8State :=
  let n := b.toNat
  if n < 0x80 then ([Char.ofNat n],{})
  else if 0xC2 ≤ n ∧ n ≤ 0xDF then ([],{ needed := 1, code := n - 0xC0 })
  else if 0xE0 ≤ n ∧ n ≤ 0xEF then
    ([],⟨2,if n = 0xE0 then 0xA0 else 0x80,if n = 0xED then 0x9F else 0xBF,n - 0xE0⟩)
  else if 0xF0 ≤ n ∧ n ≤ 0xF4 then
    ([],⟨3,if n = 0xF0 then 0x90 else 0x80,if n = 0xF4 then 0x8F else 0xBF,n - 0xF0⟩)
  else ([replacement],{})

/-- A byte that cannot go on with the character begun ends it and is read again. -/
def utf8Step (st : Utf8State) (b : UInt8) : List Char × Utf8State :=
  if st.needed = 0 then utf8Start b
  else if 0x80 ≤ b.toNat ∧ st.lower ≤ b.toNat ∧ b.toNat ≤ st.upper then
    let code := st.code * 64 + (b.toNat - 0x80)
    if st.needed = 1 then ([Char.ofNat code],{}) else ([],{ needed := st.needed - 1, code := code })
  else (replacement :: (utf8Start b).1,(utf8Start b).2)

/-- What a character is worth that the end of the bytes cuts off. -/
def utf8Flush (st : Utf8State) : List Char := if st.needed = 0 then [] else [replacement]

def utf8Run (st : Utf8State) : List UInt8 → List Char
  | [] => utf8Flush st
  | b :: s => (utf8Step st b).1 ++ utf8Run (utf8Step st b).2 s

def decodeLossy (s : List UInt8) : JsString := (utf8Run {} s).flatMap utf16

section Splitting
variable {st : Utf8State} {b : UInt8} {s t : List UInt8}

theorem utf16_length (c : Char) : 1 ≤ (utf16 c).length := by
  rw [utf16]
  split
  · exact le_rfl
  · exact Nat.le_succ 1

private theorem units_length (cs : List Char) : cs.length ≤ (cs.flatMap utf16).length := by
  induction cs with
  | nil => exact le_rfl
  | cons c cs ih =>
    have hc := utf16_length c
    rw [List.flatMap_cons,List.length_append,List.length_cons]
    omega

/-- A byte of ASCII ends whatever was begun. -/
theorem utf8Run_ascii (hb : b.toNat < 0x80) (st : Utf8State) (t : List UInt8) :
    utf8Run st (b :: t) = utf8Flush st ++ Char.ofNat b.toNat :: utf8Run {} t := by
  have hstart : utf8Start b = ([Char.ofNat b.toNat],{}) := by
    rw [utf8Start]
    exact if_pos hb
  rw [utf8Run,utf8Step,utf8Flush]
  split
  · rw [hstart]
    rfl
  · rw [if_neg (by omega),hstart]
    rfl

theorem utf8Run_append_ascii (hb : b.toNat < 0x80) (st : Utf8State) (s t : List UInt8) :
    utf8Run st (s ++ b :: t) = utf8Run st s ++ Char.ofNat b.toNat :: utf8Run {} t := by
  induction s generalizing st with
  | nil => exact utf8Run_ascii hb st t
  | cons c s ih => rw [List.cons_append,utf8Run,utf8Run,ih,List.append_assoc]

theorem decodeLossy_append_ascii (hb : b.toNat < 0x80) (s t : List UInt8) :
    decodeLossy (s ++ b :: t) = decodeLossy s ++ utf16 (Char.ofNat b.toNat) ++ decodeLossy t := by
  rw [decodeLossy,utf8Run_append_ascii hb,List.flatMap_append,List.flatMap_cons,List.append_assoc]
  rfl

/-- A character begun is worth at least one. -/
private theorem utf8Run_begun (hst : st.needed ≠ 0) (t : List UInt8) : 1 ≤ (utf8Run st t).length := by
  induction t generalizing st with
  | nil => simp [utf8Run,utf8Flush,hst]
  | cons b t ih =>
    rw [utf8Run,utf8Step,if_neg hst]
    split
    · dsimp only
      split
      · simp
      · rename_i hone
        have hnext : st.needed - 1 ≠ 0 := by omega
        exact ih hnext
    · simp

/-- More bytes never make a shorter text. -/
theorem decodeLossy_length_append (s t : List UInt8) : (decodeLossy s).length ≤ (decodeLossy (s ++ t)).length := by
  have hrun : ∀ st, ((utf8Run st s).flatMap utf16).length ≤ ((utf8Run st (s ++ t)).flatMap utf16).length := by
    intro st
    induction s generalizing st with
    | nil =>
      rw [List.nil_append,utf8Run,utf8Flush]
      split
      · exact Nat.zero_le _
      · rename_i hst
        exact le_trans (utf8Run_begun hst t) (units_length _)
    | cons b s ih =>
      have hrest := ih (utf8Step st b).2
      rw [List.cons_append,utf8Run,utf8Run,List.flatMap_append,List.flatMap_append,List.length_append,List.length_append]
      omega
  exact hrun {}

/-- Bytes behind the text that hold one of ASCII make a longer text. -/
theorem decodeLossy_ne_append (hb : b.toNat < 0x80) (s d t : List UInt8) :
    decodeLossy (s ++ (d ++ b :: t)) ≠ decodeLossy s := by
  intro he
  have hgrow := decodeLossy_length_append s d
  have hone := utf16_length (Char.ofNat b.toNat)
  have hlen := congrArg List.length he
  rw [← List.append_assoc,decodeLossy_append_ascii hb,List.length_append,List.length_append] at hlen
  omega

end Splitting
section Encoding
variable {s q : JsString} {c : Char} {st : Utf8State}

def utf8Bytes (s : JsString) : List UInt8 := (scalars s).flatMap String.utf8EncodeChar

/-- A byte that goes on with the character. -/
private theorem utf8Run_more {n : Nat} (hneeded : st.needed = n + 2) {m : Nat} (hm : m < 64) (hlo : st.lower ≤ m + 0x80)
    (hhi : m + 0x80 ≤ st.upper) (t : List UInt8) :
    utf8Run st (UInt8.ofNat (m + 0x80) :: t) = utf8Run { needed := n + 1, code := st.code * 64 + m } t := by
  rw [utf8Run,utf8Step,UInt8.toNat_ofNat',Nat.mod_eq_of_lt (by omega),hneeded,if_neg (by omega),
    if_pos ⟨by omega,hlo,hhi⟩,if_neg (by omega)]
  rw [Nat.add_sub_cancel]
  rfl

/-- The last byte of a character. -/
private theorem utf8Run_last (hneeded : st.needed = 1) {m : Nat} (hm : m < 64) (hlo : st.lower ≤ m + 0x80)
    (hhi : m + 0x80 ≤ st.upper) (t : List UInt8) :
    utf8Run st (UInt8.ofNat (m + 0x80) :: t) = Char.ofNat (st.code * 64 + m) :: utf8Run {} t := by
  rw [utf8Run,utf8Step,UInt8.toNat_ofNat',Nat.mod_eq_of_lt (by omega),hneeded,if_neg (by omega),if_pos ⟨by omega,hlo,hhi⟩,if_pos rfl]
  rw [Nat.add_sub_cancel]
  rfl

private theorem utf8Run_start {b : UInt8} {next : Utf8State} (h : utf8Start b = ([],next)) (t : List UInt8) :
    utf8Run {} (b :: t) = utf8Run next t := by
  rw [utf8Run,utf8Step,if_pos rfl,h,List.nil_append]

private theorem start_two {v : Nat} (hlo : 0x7f < v) (hhi : v ≤ 0x7ff) :
    utf8Start (UInt8.ofNat (v / 64 % 32 + 0xC0)) = ([],{ needed := 1, code := v / 64 }) := by
  have hcode : v / 64 % 32 + 0xC0 - 0xC0 = v / 64 := by omega
  rw [utf8Start,UInt8.toNat_ofNat',Nat.mod_eq_of_lt (by omega),if_neg (by omega),if_pos ⟨by omega,by omega⟩,hcode]

private theorem start_three {v : Nat} (hlo : 0x7ff < v) (hhi : v ≤ 0xffff) :
    utf8Start (UInt8.ofNat (v / 4096 % 16 + 0xE0)) =
      ([],⟨2,if v / 4096 = 0 then 0xA0 else 0x80,if v / 4096 = 13 then 0x9F else 0xBF,v / 4096⟩) := by
  have hcode : v / 4096 % 16 + 0xE0 - 0xE0 = v / 4096 := by omega
  have hfirst : v / 4096 % 16 + 0xE0 = 0xE0 ↔ v / 4096 = 0 := by omega
  have hlast : v / 4096 % 16 + 0xE0 = 0xED ↔ v / 4096 = 13 := by omega
  rw [utf8Start,UInt8.toNat_ofNat',Nat.mod_eq_of_lt (by omega),if_neg (by omega),if_neg (by omega),if_pos ⟨by omega,by omega⟩]
  simp only [hcode,hfirst,hlast]

private theorem start_four {v : Nat} (hlo : 0xffff < v) (hhi : v < 0x110000) :
    utf8Start (UInt8.ofNat (v / 262144 % 8 + 0xF0)) =
      ([],⟨3,if v / 262144 = 0 then 0x90 else 0x80,if v / 262144 = 4 then 0x8F else 0xBF,v / 262144⟩) := by
  have hcode : v / 262144 % 8 + 0xF0 - 0xF0 = v / 262144 := by omega
  have hfirst : v / 262144 % 8 + 0xF0 = 0xF0 ↔ v / 262144 = 0 := by omega
  have hlast : v / 262144 % 8 + 0xF0 = 0xF4 ↔ v / 262144 = 4 := by omega
  rw [utf8Start,UInt8.toNat_ofNat',Nat.mod_eq_of_lt (by omega),if_neg (by omega),if_neg (by omega),
    if_neg (by omega),if_pos ⟨by omega,by omega⟩]
  simp only [hcode,hfirst,hlast]

private theorem utf8EncodeChar_eq (c : Char) : String.utf8EncodeChar c =
    if c.toNat ≤ 0x7f then [UInt8.ofNat c.toNat]
    else if c.toNat ≤ 0x7ff then [UInt8.ofNat (c.toNat / 64 % 32 + 0xC0),UInt8.ofNat (c.toNat % 64 + 0x80)]
    else if c.toNat ≤ 0xffff then
      [UInt8.ofNat (c.toNat / 4096 % 16 + 0xE0),UInt8.ofNat (c.toNat / 64 % 64 + 0x80),UInt8.ofNat (c.toNat % 64 + 0x80)]
    else
      [UInt8.ofNat (c.toNat / 262144 % 8 + 0xF0),UInt8.ofNat (c.toNat / 4096 % 64 + 0x80),
       UInt8.ofNat (c.toNat / 64 % 64 + 0x80),UInt8.ofNat (c.toNat % 64 + 0x80)] := rfl

/-- The bytes of a character are read back. -/
theorem utf8Run_encode (c : Char) (t : List UInt8) :
    utf8Run {} (String.utf8EncodeChar c ++ t) = c :: utf8Run {} t := by
  have hvalid : c.toNat < 0xD800 ∨ 0xDFFF < c.toNat ∧ c.toNat < 0x110000 := c.valid
  have hc : Char.ofNat c.toNat = c := Char.ofNat_toNat c
  rw [utf8EncodeChar_eq]
  split
  · have hb := UInt8.toNat_ofNat_of_lt' (show c.toNat < 256 by omega)
    rw [List.singleton_append,utf8Run_ascii (by rw [hb]; omega),hb,hc]
    rfl
  · split
    · rw [List.cons_append,List.singleton_append,utf8Run_start (start_two (by omega) (by omega)),
        utf8Run_last rfl (by omega) (by change 0x80 ≤ _; omega) (by change _ ≤ 0xBF; omega)]
      have hcode : c.toNat / 64 * 64 + c.toNat % 64 = c.toNat := by omega
      dsimp only
      rw [hcode,hc]
    · split
      · rw [List.cons_append,List.cons_append,List.singleton_append,utf8Run_start (start_three (by omega) (by omega)),
          utf8Run_more (n := 0) rfl (by omega) (by dsimp only; split <;> omega) (by dsimp only; split <;> omega),
          utf8Run_last rfl (by omega) (by change 0x80 ≤ _; omega) (by change _ ≤ 0xBF; omega)]
        have hcode : (c.toNat / 4096 * 64 + c.toNat / 64 % 64) * 64 + c.toNat % 64 = c.toNat := by omega
        dsimp only
        rw [hcode,hc]
      · rw [List.cons_append,List.cons_append,List.cons_append,List.singleton_append,
          utf8Run_start (start_four (by omega) (by omega)),
          utf8Run_more (n := 1) rfl (by omega) (by dsimp only; split <;> omega) (by dsimp only; split <;> omega),
          utf8Run_more (n := 0) rfl (by omega) (by change 0x80 ≤ _; omega) (by change _ ≤ 0xBF; omega),
          utf8Run_last rfl (by omega) (by change 0x80 ≤ _; omega) (by change _ ≤ 0xBF; omega)]
        have hcode : ((c.toNat / 262144 * 64 + c.toNat / 4096 % 64) * 64 + c.toNat / 64 % 64) * 64 + c.toNat % 64 = c.toNat := by
          omega
        dsimp only
        rw [hcode,hc]

/-- Text comes back from its bytes, up to lone surrogates. -/
theorem decodeLossy_utf8Bytes (s : JsString) : decodeLossy (utf8Bytes s) = (scalars s).flatMap utf16 := by
  have hrun : ∀ cs : List Char, utf8Run {} (cs.flatMap String.utf8EncodeChar) = cs := by
    intro cs
    induction cs with
    | nil => rfl
    | cons c cs ih => rw [List.flatMap_cons,utf8Run_encode,ih]
  rw [decodeLossy,utf8Bytes,hrun]

theorem decodeLossy_utf8Bytes_wellFormed (hs : wellFormed s = true) : decodeLossy (utf8Bytes s) = s :=
  (decodeLossy_utf8Bytes s).trans ((flatMap_scalars_iff s).mpr hs)

theorem wellFormed_ascii (hs : ∀ c ∈ s, c < 128) : wellFormed s = true := by
  rw [← flatMap_scalars_iff,scalars_ascii hs]
  induction s with
  | nil => rfl
  | cons c s ih =>
    have hc := UInt16.lt_iff_toNat_lt.mp (hs c List.mem_cons_self)
    change c.toNat < 128 at hc
    have hone : ∀ k < 128, utf16 (Char.ofNat k) = [k.toUInt16] := by decide
    rw [List.map_cons,List.flatMap_cons,hone _ hc,ih fun d hd => hs d (List.mem_cons_of_mem _ hd)]
    simp

/-- One byte for each unit of ASCII. -/
theorem utf8Bytes_ascii (hs : ∀ c ∈ s, c < 128) : utf8Bytes s = s.map (·.toUInt8) := by
  have hone : ∀ k < 128, String.utf8EncodeChar (Char.ofNat k) = [k.toUInt8] := by decide
  rw [utf8Bytes,scalars_ascii hs,List.flatMap_map]
  induction s with
  | nil => rfl
  | cons c s ih =>
    have hc := UInt16.lt_iff_toNat_lt.mp (hs c List.mem_cons_self)
    change c.toNat < 128 at hc
    rw [List.flatMap_cons,hone _ hc,ih fun d hd => hs d (List.mem_cons_of_mem _ hd),List.map_cons]
    rfl

private theorem encode_units (x : Char) : (utf16 x).length ≤ (String.utf8EncodeChar x).length ∧
    ((String.utf8EncodeChar x).length = (utf16 x).length → x.toNat < 128) ∧
    ((∀ b ∈ String.utf8EncodeChar x, b.toNat < 128) → x.toNat < 128) := by
  have hvalid : x.toNat < 0xD800 ∨ 0xDFFF < x.toNat ∧ x.toNat < 0x110000 := x.valid
  have hlen : (utf16 x).length = if x.toNat < 0x10000 then 1 else 2 := by
    rw [utf16]
    split <;> rfl
  rw [utf8EncodeChar_eq]
  split
  · exact ⟨by rw [hlen,if_pos (by omega)]; exact le_rfl,fun _ => by omega,fun _ => by omega⟩
  · split
    · rw [hlen,if_pos (by omega)]
      refine ⟨Nat.le_succ 1,fun h => absurd h (by decide : ¬(2 = 1)),fun h => ?_⟩
      have hb := h _ List.mem_cons_self
      rw [UInt8.toNat_ofNat',Nat.mod_eq_of_lt (by omega)] at hb
      omega
    · split
      · rw [hlen,if_pos (by omega)]
        refine ⟨Nat.le_add_left 1 2,fun h => absurd h (by decide : ¬(3 = 1)),fun h => ?_⟩
        have hb := h _ List.mem_cons_self
        rw [UInt8.toNat_ofNat',Nat.mod_eq_of_lt (by omega)] at hb
        omega
      · rw [hlen,if_neg (by omega)]
        refine ⟨Nat.le_add_left 2 2,fun h => absurd h (by decide : ¬(4 = 2)),fun h => ?_⟩
        have hb := h _ List.mem_cons_self
        rw [UInt8.toNat_ofNat',Nat.mod_eq_of_lt (by omega)] at hb
        omega

private theorem encode_all (cs : List Char) :
    (cs.flatMap utf16).length ≤ (cs.flatMap String.utf8EncodeChar).length ∧
    ((cs.flatMap String.utf8EncodeChar).length = (cs.flatMap utf16).length → ∀ x ∈ cs, x.toNat < 128) ∧
    ((∀ b ∈ cs.flatMap String.utf8EncodeChar, b.toNat < 128) → ∀ x ∈ cs, x.toNat < 128) := by
  induction cs with
  | nil => exact ⟨le_rfl,fun _ x hx => absurd hx List.not_mem_nil,fun _ x hx => absurd hx List.not_mem_nil⟩
  | cons x cs ih =>
    obtain ⟨hle,heq,hbytes⟩ := encode_units x
    obtain ⟨ihle,iheq,ihbytes⟩ := ih
    simp only [List.flatMap_cons,List.length_append,List.mem_append,List.forall_mem_cons]
    exact ⟨by omega,fun h => ⟨heq (by omega),iheq (by omega)⟩,
      fun h => ⟨hbytes fun b hb => h b (.inl hb),ihbytes fun b hb => h b (.inr hb)⟩⟩

private theorem utf16_ascii {x : Char} (hx : x.toNat < 128) : utf16 x = [unit x] ∧ unit x < 128 := by
  refine ⟨by rw [utf16,if_pos (by omega)],?_⟩
  rw [UInt16.lt_iff_toNat_lt,unit,Nat.toUInt16,UInt16.toNat_ofNat']
  change x.toNat % 2^16 < 128
  omega

theorem scalars_units_length (s : JsString) : ((scalars s).flatMap utf16).length = s.length := by
  fun_induction scalars s with
  | case1 => rfl
  | case2 c =>
    split
    · rfl
    · rename_i hc
      rw [Bool.or_eq_true,not_or,Bool.not_eq_true,Bool.not_eq_true] at hc
      simp [utf16_ofNat hc.1 hc.2]
  | case3 c d s hc hd ih => simp [utf16_pairScalar hc hd,ih]
  | case4 c d s hc hd ih => simp [utf16_replacement,ih]
  | case5 c d s hc ih =>
    rw [Bool.not_eq_true] at hc
    rw [List.flatMap_cons,List.length_append,ih]
    split
    · simp [utf16_replacement,Nat.add_comm]
    · rename_i hd
      rw [Bool.not_eq_true] at hd
      simp [utf16_ofNat hc hd,Nat.add_comm]

/-- Neither a lone surrogate nor a pair is a scalar value of ASCII. -/
private theorem ascii_of_scalars (h : ∀ x ∈ scalars s, x.toNat < 128) : ∀ c ∈ s, c < 128 := by
  have hreplacement : ¬replacement.toNat < 128 := by decide
  have hunit : ∀ {c : CodeUnit}, isHigh c = false → isLow c = false → (Char.ofNat c.toNat).toNat < 128 → c < 128 := by
    intro c hh hl hx
    obtain ⟨hone,hlt⟩ := utf16_ascii hx
    rw [utf16_ofNat hh hl] at hone
    rwa [List.cons.inj hone |>.1]
  fun_induction scalars s with
  | case1 => exact fun c hc => absurd hc List.not_mem_nil
  | case2 c =>
    rw [List.forall_mem_singleton] at h ⊢
    split at h
    · exact absurd h hreplacement
    · rename_i hc
      rw [Bool.or_eq_true,not_or,Bool.not_eq_true,Bool.not_eq_true] at hc
      exact hunit hc.1 hc.2 h
  | case3 c d s hc hd ih =>
    have hpair := (utf16_ascii (h _ List.mem_cons_self)).1
    rw [utf16_pairScalar hc hd] at hpair
    exact absurd (congrArg List.length hpair) (by simp)
  | case4 c d s hc hd ih => exact absurd (h _ List.mem_cons_self) hreplacement
  | case5 c d s hc ih =>
    rw [Bool.not_eq_true] at hc
    rw [List.forall_mem_cons] at h ⊢
    refine ⟨?_,ih h.2⟩
    have hfirst := h.1
    split at hfirst
    · exact absurd hfirst hreplacement
    · rename_i hd
      rw [Bool.not_eq_true] at hd
      exact hunit hc hd hfirst

/-- A string has at least as many bytes as units, and more unless it is ASCII. -/
theorem utf8Bytes_length (s : JsString) : s.length ≤ (utf8Bytes s).length ∧
    ((utf8Bytes s).length = s.length ↔ ∀ c ∈ s, c < 128) := by
  obtain ⟨hle,heq,-⟩ := encode_all (scalars s)
  rw [scalars_units_length] at hle heq
  refine ⟨hle,fun h => ascii_of_scalars (heq h),fun h => ?_⟩
  rw [utf8Bytes_ascii h,List.length_map]

/-- Bytes of ASCII come from their own text only. -/
theorem utf8Bytes_injective_ascii (hq : ∀ c ∈ q, c < 128) (h : utf8Bytes s = utf8Bytes q) : s = q := by
  have hs : ∀ c ∈ s, c < 128 := by
    refine ascii_of_scalars ((encode_all (scalars s)).2.2 fun b hb => ?_)
    change b ∈ utf8Bytes s at hb
    rw [h,utf8Bytes_ascii hq] at hb
    obtain ⟨c,hc,rfl⟩ := List.mem_map.mp hb
    have hlt := UInt16.lt_iff_toNat_lt.mp (hq c hc)
    rw [UInt16.toNat_toUInt8]
    exact lt_of_le_of_lt (Nat.mod_le _ _) hlt
  have hback := congrArg decodeLossy h
  rw [decodeLossy_utf8Bytes_wellFormed (wellFormed_ascii hs),decodeLossy_utf8Bytes_wellFormed (wellFormed_ascii hq)] at hback
  exact hback

end Encoding
end JustMail.Foundation
