import JustMail.Foundation.IpAddress
import JustMail.Foundation.Utf8Decoder

/-! `decodeURIComponent`: escaped bytes are UTF-8, and a text with an escape that is none,
or with bytes that are no text, is refused. -/
namespace JustMail.Foundation

/-- The byte of two hexadecimal digits. -/
def hexPair (hi lo : CodeUnit) : Option UInt8 :=
  (hexVal hi).bind fun m => (hexVal lo).map fun n => (16 * m + n).toUInt8

/-- What stands for itself, and what is escaped. -/
inductive UriPiece where
  | plain (c : CodeUnit)
  | escaped (b : UInt8)
  deriving DecidableEq

def escapedByte : JsString → Option UInt8
  | hi :: lo :: _ => hexPair hi lo
  | _ => none

/-- `skip` digits have been used. -/
def uriPieces : Nat → JsString → Option (List UriPiece)
  | _, [] => some []
  | skip+1, _ :: s => uriPieces skip s
  | 0, c :: s =>
    if c = PERCENT then (escapedByte s).bind fun b => (uriPieces 2 s).map (.escaped b :: ·)
    else (uriPieces 0 s).map (.plain c :: ·)

/-- The text of bytes that are UTF-8. What has to be replaced does not give its bytes back. -/
def strictUtf8 (bytes : List UInt8) : Option JsString :=
  if utf8Bytes (decodeLossy bytes) = bytes then some (decodeLossy bytes) else none

/-- Escaped bytes are read together up to the next unit that is not escaped. -/
def decodePieces (run : List UInt8) : List UriPiece → Option JsString
  | [] => strictUtf8 run
  | .escaped b :: ps => decodePieces (run ++ [b]) ps
  | .plain c :: ps => (strictUtf8 run).bind fun text => (decodePieces [] ps).map fun rest => text ++ c :: rest

/-- Nothing where it throws. -/
def decodeURIComponent (s : JsString) : Option JsString := (uriPieces 0 s).bind (decodePieces [])

section PercentForms

/-- A text with some units of ASCII escaped. -/
inductive PercentForm : JsString → JsString → Prop
  | nil : PercentForm [] []
  | plain {c : CodeUnit} {v t : JsString} : c ≠ PERCENT → PercentForm v t → PercentForm (c :: v) (c :: t)
  | escaped {hi lo : CodeUnit} {b : UInt8} {v t : JsString} : hexPair hi lo = some b → b < 128 → PercentForm v t →
      PercentForm (PERCENT :: hi :: lo :: v) (b.toUInt16 :: t)

variable {s t v : JsString}

theorem strictUtf8_utf8Bytes (hs : wellFormed s = true) : strictUtf8 (utf8Bytes s) = some s := by
  rw [strictUtf8,decodeLossy_utf8Bytes_wellFormed hs,if_pos rfl]

/-- The escapes are read with the ASCII text before them. -/
theorem decodePieces_percentForm (h : PercentForm v t) : ∃ ps, uriPieces 0 v = some ps ∧
    ∀ s : JsString, (∀ c ∈ s, c < 128) → decodePieces (utf8Bytes s) ps = some (s ++ t) := by
  induction h with
  | nil =>
    refine ⟨[],rfl,fun s hs => ?_⟩
    rw [decodePieces,strictUtf8_utf8Bytes (wellFormed_ascii hs),List.append_nil]
  | @plain c v t hc _ ih =>
    obtain ⟨ps,hps,hdecode⟩ := ih
    refine ⟨.plain c :: ps,by rw [uriPieces,if_neg hc,hps]; rfl,fun s hs => ?_⟩
    have hrest : decodePieces [] ps = some t := hdecode [] (by simp)
    rw [decodePieces,strictUtf8_utf8Bytes (wellFormed_ascii hs),Option.bind_some,hrest]
    rfl
  | @escaped hi lo b v t hb hascii _ ih =>
    obtain ⟨ps,hps,hdecode⟩ := ih
    refine ⟨.escaped b :: ps,?_,fun s hs => ?_⟩
    · have hbyte : escapedByte (hi :: lo :: v) = some b := hb
      rw [uriPieces,if_pos rfl,hbyte,Option.bind_some]
      change (uriPieces 0 v).map _ = _
      rw [hps]
      rfl
    · have hunit : b.toUInt16 < 128 := by
        rw [UInt16.lt_iff_toNat_lt,UInt8.toNat_toUInt16]
        exact UInt8.lt_iff_toNat_lt.mp hascii
      have hall : ∀ c ∈ s ++ [b.toUInt16], c < 128 := by
        intro c hc
        rcases List.mem_append.mp hc with hc | hc
        · exact hs c hc
        · rw [List.mem_singleton.mp hc]
          exact hunit
      have hbytes : utf8Bytes (s ++ [b.toUInt16]) = utf8Bytes s ++ [b] := by
        rw [utf8Bytes_ascii hall,utf8Bytes_ascii hs,List.map_append,List.map_singleton]
        simp
      rw [decodePieces,← hbytes,hdecode _ hall]
      simp

theorem decodeURIComponent_percentForm (h : PercentForm v t) : decodeURIComponent v = some t := by
  obtain ⟨ps,hps,hdecode⟩ := decodePieces_percentForm h
  rw [decodeURIComponent,hps,Option.bind_some]
  exact hdecode [] (by simp)

/-- Text without a percent sign is its own percent form. -/
theorem percentForm_self (h : PERCENT ∉ s) : PercentForm s s := by
  induction s with
  | nil => exact .nil
  | cons c s ih =>
    rw [List.mem_cons,not_or] at h
    exact .plain (Ne.symm h.1) (ih h.2)

/-- A form begins with a percent sign, or as the text does. -/
theorem PercentForm.head (h : PercentForm v t) : ∀ c ∈ v.head?, c = PERCENT ∨ c ∈ t.head? := by
  cases h with
  | nil => simp
  | plain _ _ =>
    rintro c ⟨⟩
    exact .inr rfl
  | escaped _ _ _ =>
    rintro c ⟨⟩
    exact .inl rfl

end PercentForms
end JustMail.Foundation
