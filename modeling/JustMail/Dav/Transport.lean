import JustMail.Contacts.VCard
import JustMail.Calendar.ICal
import JustMail.Foundation.Utf16

/-! The serialized objects on the wire: a DAV PUT sends UTF-8, which has no form for
half a surrogate pair. -/
namespace JustMail.Dav
open Foundation ContentLine

/-- A property line of well-formed Unicode without line breaks. -/
def IsPropertyLine (line : JsString) : Prop := wellFormed line = true ∧ CR ∉ line ∧ LF ∉ line

instance (line : JsString) : Decidable (IsPropertyLine line) := inferInstanceAs (Decidable (_ ∧ _))

/-- Some fold point, at 75 units or a multiple of 74 units later, separates the
halves of a surrogate pair. -/
def FoldsInsidePair (line : JsString) : Prop :=
  ∃ j, 75 + 74*j < line.length ∧ splitsPair line (75 + 74*j) = true

/-- The serialized text as the server hands it back. -/
def transported (text : JsString) : Option JsString := decodeUtf8 (encodeUtf8 text)

private theorem physicalLines_iff {line : JsString} (h : wellFormed line = true) :
    (∀ p ∈ physicalLines line, wellFormed p = true) ↔ ¬ FoldsInsidePair line := by
  rw [physicalLines,wellFormed_foldedLines (by decide) (by decide) (by decide) (by decide) h,FoldsInsidePair]
  simp

private theorem splitLines_foldLine {line : JsString} (h : CR ∉ line ∧ LF ∉ line) :
    splitLines CR LF (foldLine line) = physicalLines line := by
  refine splitLines_joined (by decide) (foldedLines_ne_nil _ _ _ _) fun p hp => ⟨?_,?_⟩
  · intro hc
    rcases mem_of_mem_foldedLines (by decide) hp hc with hc | hc
    · exact absurd hc (by decide)
    · exact h.1 hc
  · intro hc
    rcases mem_of_mem_foldedLines (by decide) hp hc with hc | hc
    · exact absurd hc (by decide)
    · exact h.2 hc

private theorem wellFormed_intercalate (ps : List JsString) :
    wellFormed (CRLF.intercalate ps) = true ↔ ∀ p ∈ ps, wellFormed p = true := by
  have hcr : isHigh CR = false ∧ isLow CR = false := by decide
  have hlf : isHigh LF = false ∧ isLow LF = false := by decide
  induction ps with
  | nil => simp [wellFormed]
  | cons p ps ih =>
    cases ps with
    | nil => simp
    | cons q ps =>
      have hjoin : CRLF.intercalate (p :: q :: ps) = p ++ CR :: LF :: CRLF.intercalate (q :: ps) := by
        simp [List.intercalate,CRLF]
      rw [hjoin,wellFormed_append_plain hcr.1 hcr.2,wellFormed_plain hlf.1,hlf.2,List.forall_mem_cons]
      simp only [Bool.not_false,Bool.true_and,Bool.and_eq_true,ih]

private theorem wellFormed_joinFolded (lines : List JsString) :
    wellFormed (joinFolded lines) = true ↔ ∀ line ∈ lines, ∀ p ∈ physicalLines line, wellFormed p = true := by
  have hend : joinFolded lines = CRLF.intercalate (lines.map foldLine) ++ CR :: [LF] := rfl
  rw [hend,wellFormed_append_plain (by decide) (by decide),show wellFormed [LF] = true by decide,Bool.and_true,
    wellFormed_intercalate,List.forall_mem_map]
  exact forall₂_congr fun line _ => wellFormed_intercalate (physicalLines line)

private theorem transported_joinFolded {lines : List JsString} (h : ∀ line ∈ lines, IsPropertyLine line) :
    transported (joinFolded lines) = some (joinFolded lines) ↔ ∀ line ∈ lines, ¬ FoldsInsidePair line := by
  rw [transported,transport_iff,wellFormed_joinFolded]
  exact forall₂_congr fun line hl => physicalLines_iff (h line hl).1

/-- Folding keeps well-formed lines well formed, and a serialized object survives its
transport, exactly when no fold point falls inside a surrogate pair. -/
theorem folding_transport_iff (line : JsString) (card : Contacts.VCard) (dates : DateParser) (now : Instant)
    (event : Calendar.ICalEvent) :
    (IsPropertyLine line →
      ((∀ p ∈ splitLines CR LF (Contacts.foldLine line), wellFormed p = true) ↔ ¬ FoldsInsidePair line) ∧
      ((∀ p ∈ splitLines CR LF (Calendar.foldLine line), wellFormed p = true) ↔ ¬ FoldsInsidePair line)) ∧
    ((∀ line ∈ Contacts.cardLines card, IsPropertyLine line) →
      (transported (Contacts.serializeVCard card) = some (Contacts.serializeVCard card) ↔
        ∀ line ∈ Contacts.cardLines card, ¬ FoldsInsidePair line)) ∧
    ((∀ line ∈ Calendar.eventLines dates now event, IsPropertyLine line) →
      (transported (Calendar.serializeICal dates now event) = some (Calendar.serializeICal dates now event) ↔
        ∀ line ∈ Calendar.eventLines dates now event, ¬ FoldsInsidePair line)) := by
  refine ⟨fun hl => ?_,transported_joinFolded,transported_joinFolded⟩
  have hline : (∀ p ∈ splitLines CR LF (foldLine line), wellFormed p = true) ↔ ¬ FoldsInsidePair line := by
    rw [splitLines_foldLine hl.2]
    exact physicalLines_iff hl.1
  exact ⟨hline,hline⟩

/-- A contact whose note folds between the halves of an emoji. -/
def wavingCard : Contacts.VCard :=
  ⟨js "u-1",js "Ada",[],[],none,some (List.replicate 69 (unit 'a') ++ js "👋")⟩

def wavingLine : JsString := js "NOTE:" ++ List.replicate 69 (unit 'a') ++ js "👋"

def shiftedCard : Contacts.VCard :=
  ⟨js "u-1",js "Ada",[],[],none,some (List.replicate 70 (unit 'a') ++ js "👋")⟩

theorem shiftedCard_transported :
    transported (Contacts.serializeVCard shiftedCard) = some (Contacts.serializeVCard shiftedCard) := by
  have hiff := (folding_transport_iff wavingLine shiftedCard isoParser .epoch ⟨[],[],[],[],true,none,none⟩).2.1
  refine (hiff (by decide +kernel)).mpr ?_
  have hshort : ∀ line ∈ Contacts.cardLines shiftedCard, line.length ≤ 77 := by decide +kernel
  have hfirst : ∀ line ∈ Contacts.cardLines shiftedCard, splitsPair line 75 = false := by decide +kernel
  rintro line hl ⟨j,hj,hsplit⟩
  have := hshort line hl
  obtain rfl : j = 0 := by omega
  rw [hfirst line hl] at hsplit
  exact absurd hsplit (by decide)

theorem wavingCard_not_transported :
    IsPropertyLine wavingLine ∧
    (∃ p ∈ splitLines CR LF (Contacts.foldLine wavingLine), wellFormed p = false) ∧
    (∀ line ∈ Contacts.cardLines wavingCard, IsPropertyLine line) ∧
    transported (Contacts.serializeVCard wavingCard) ≠ some (Contacts.serializeVCard wavingCard) := by
  refine ⟨by decide +kernel,by decide +kernel,by decide +kernel,?_⟩
  rw [ne_eq,transported,transport_iff]
  decide +kernel

end JustMail.Dav
