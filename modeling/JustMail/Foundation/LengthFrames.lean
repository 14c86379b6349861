import Mathlib.Algebra.GroupWithZero.Nat
import Mathlib.Data.List.Basic

/-! Streams of frames, each behind its length in four bytes, the most significant
first. A frame of length zero ends the stream. -/
namespace JustMail.Foundation.LengthFrames

abbrev Bytes := List UInt8

def be32 (n : Nat) : Bytes :=
  [(n / 2^24 % 256).toUInt8,(n / 2^16 % 256).toUInt8,(n / 2^8 % 256).toUInt8,(n % 256).toUInt8]

def frame (b : Bytes) : Bytes := be32 b.length ++ b

def lengthOf (a b c d : UInt8) : Nat := ((a.toNat * 256 + b.toNat) * 256 + c.toNat) * 256 + d.toNat

/-- Every round reads a length, so that the number of bytes is enough fuel. -/
def readLoop : Nat → Bytes → Option Bytes
  | fuel+1, a :: b :: c :: d :: rest =>
    let n := lengthOf a b c d
    if n = 0 then some []
    else if rest.length < n then none
    else (readLoop fuel (rest.drop n)).map (rest.take n ++ ·)
  | _, _ => none

/-- What a stream holds, once its last frame is there. -/
def readFrames (s : Bytes) : Option Bytes := readLoop s.length s

variable {s t b : Bytes}

private theorem readLoop_fuel (n m : Nat) (s : Bytes) (hn : s.length ≤ n) (hm : s.length ≤ m) :
    readLoop n s = readLoop m s := by
  induction n generalizing m s with
  | zero =>
    obtain rfl := List.length_eq_zero_iff.mp (Nat.le_zero.mp hn)
    cases m <;> rfl
  | succ n ih =>
    match s,m with
    | [],m => cases m <;> rfl
    | [_],m => cases m <;> rfl
    | [_,_],m => cases m <;> rfl
    | [_,_,_],m => cases m <;> rfl
    | a :: b :: c :: d :: rest,0 => simp at hm
    | a :: b :: c :: d :: rest,m+1 =>
      simp only [List.length_cons] at hn hm
      have hrest : readLoop n (rest.drop (lengthOf a b c d)) = readLoop m (rest.drop (lengthOf a b c d)) := by
        apply ih <;> rw [List.length_drop] <;> omega
      rw [readLoop,readLoop,hrest]

theorem readFrames_cons (a b c d : UInt8) (rest : Bytes) : readFrames (a :: b :: c :: d :: rest) =
    if lengthOf a b c d = 0 then some []
    else if rest.length < lengthOf a b c d then none
    else (readFrames (rest.drop (lengthOf a b c d))).map (rest.take (lengthOf a b c d) ++ ·) := by
  rw [readFrames,List.length_cons,readLoop]
  rw [readLoop_fuel _ _ (rest.drop (lengthOf a b c d)) (by simp only [List.length_drop,List.length_cons]; omega) (Nat.le_refl _)]
  rfl

private theorem lengthOf_be32 {n : Nat} (hn : n < 2^32) :
    lengthOf (n / 2^24 % 256).toUInt8 (n / 2^16 % 256).toUInt8 (n / 2^8 % 256).toUInt8 (n % 256).toUInt8 = n := by
  simp only [lengthOf,Nat.toUInt8,UInt8.toNat_ofNat']
  omega

theorem readFrames_frame (hb : b ≠ []) (hlen : b.length < 2^32) (s : Bytes) :
    readFrames (frame b ++ s) = (readFrames s).map (b ++ ·) := by
  have hpos := List.length_pos_of_ne_nil hb
  have hframe : frame b ++ s = (b.length / 2^24 % 256).toUInt8 :: (b.length / 2^16 % 256).toUInt8 ::
      (b.length / 2^8 % 256).toUInt8 :: (b.length % 256).toUInt8 :: (b ++ s) := rfl
  rw [hframe,readFrames_cons,lengthOf_be32 hlen,if_neg (by omega),if_neg (by rw [List.length_append]; omega),
    List.drop_left,List.take_left]

theorem readFrames_end (s : Bytes) : readFrames (be32 0 ++ s) = some [] := by
  have hframe : be32 0 ++ s = 0 :: 0 :: 0 :: 0 :: s := rfl
  rw [hframe,readFrames_cons,if_pos (by decide)]

/-- What comes behind the end of the stream is not read. -/
theorem readFrames_append {content : Bytes} (h : readFrames s = some content) (t : Bytes) :
    readFrames (s ++ t) = some content := by
  have hloop : ∀ n (s content : Bytes), s.length ≤ n → readFrames s = some content → readFrames (s ++ t) = some content := by
    intro n
    induction n with
    | zero =>
      intro s content hn hs
      obtain rfl := List.length_eq_zero_iff.mp (Nat.le_zero.mp hn)
      cases hs
    | succ n ih =>
      intro s content hn hs
      match s with
      | [] => cases hs
      | [_] => cases hs
      | [_,_] => cases hs
      | [_,_,_] => cases hs
      | a :: b :: c :: d :: rest =>
        simp only [List.length_cons] at hn
        rw [readFrames_cons] at hs
        simp only [List.cons_append]
        rw [readFrames_cons]
        split at hs
        · rename_i hzero
          rw [if_pos hzero]
          exact hs
        · rename_i hzero
          split at hs
          · cases hs
          · rename_i hroom
            obtain ⟨behind,hbehind,hcontent⟩ := Option.map_eq_some_iff.mp hs
            have hle : lengthOf a b c d ≤ rest.length := by omega
            rw [if_neg hzero,if_neg (by rw [List.length_append]; omega),List.drop_append_of_le_length hle,
              List.take_append_of_le_length hle,ih _ behind (by rw [List.length_drop]; omega) hbehind]
            exact congrArg some hcontent
  exact hloop s.length s content (Nat.le_refl _) h

/-- Frames with something in them do not end the stream. -/
theorem readFrames_open {bs : List Bytes} (h : ∀ b ∈ bs, b ≠ [] ∧ b.length < 2^32) :
    readFrames (bs.flatMap frame) = none := by
  induction bs with
  | nil => rfl
  | cons b bs ih =>
    obtain ⟨hne,hlen⟩ := h b List.mem_cons_self
    rw [List.flatMap_cons,readFrames_frame hne hlen,ih fun b' hb' => h b' (List.mem_cons_of_mem _ hb')]
    rfl

/-- The last frame behind them does. -/
theorem readFrames_ended {bs : List Bytes} (h : ∀ b ∈ bs, b ≠ [] ∧ b.length < 2^32) :
    readFrames (bs.flatMap frame ++ be32 0) = some bs.flatten := by
  induction bs with
  | nil => exact readFrames_end []
  | cons b bs ih =>
    obtain ⟨hne,hlen⟩ := h b List.mem_cons_self
    rw [List.flatMap_cons,List.append_assoc,readFrames_frame hne hlen,ih fun b' hb' => h b' (List.mem_cons_of_mem _ hb')]
    rfl

end JustMail.Foundation.LengthFrames
