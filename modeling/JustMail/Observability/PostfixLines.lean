import JustMail.Foundation.CodeUnits
import JustMail.Foundation.Decimal
import JustMail.Observability.MailTraces

/-! Delivery lines of Postfix (`parsePostfix`), whose last part is text of the remote server. -/
namespace JustMail.Observability
open Foundation Postfix

/-- A value without brackets: it ends at white space or a comma. -/
def PlainValue (v : JsString) : Prop :=
  v ≠ [] ∧ (∀ c ∈ v, (!isSpace c && c != COMMA) = true) ∧ v.head? ≠ some (unit '<')

instance : DecidablePred PlainValue := fun _ => inferInstanceAs (Decidable (_ ∧ _ ∧ _))

/-- A text of units of a class, at least one. -/
def Run (p : CodeUnit → Bool) (s : JsString) : Prop := s ≠ [] ∧ ∀ c ∈ s, p c = true

instance (p : CodeUnit → Bool) : DecidablePred (Run p) := fun _ => inferInstanceAs (Decidable (_ ∧ _))

/-- What a delivery line says. Its recipient may be any text. -/
structure DeliveryLine where
  component : JsString
  pid : JsString
  queueId : JsString
  recipient : JsString
  relay : JsString
  delay : JsString
  dsn : JsString
  status : JsString
  component_word : Run isWord component
  pid_digits : Run isDigit pid
  queueId_word : Run isWord queueId
  relay_plain : PlainValue relay
  delay_plain : PlainValue delay
  dsn_plain : PlainValue dsn
  status_plain : PlainValue status

namespace DeliveryLine

/-- The free text in its parenthesis. -/
def reply (free : JsString) : JsString := js " (" ++ free ++ js ")"

def addressee (l : DeliveryLine) : JsString := js "to=<" ++ l.recipient ++ js ">"

def fields (l : DeliveryLine) : JsString :=
  l.addressee ++ js ", relay=" ++ l.relay ++ js ", delay=" ++ l.delay ++ js ", dsn=" ++ l.dsn ++
    js ", status=" ++ l.status

def text (l : DeliveryLine) (free : JsString) : JsString :=
  js "postfix/" ++ l.component ++ js "[" ++ l.pid ++ js "]: " ++ l.queueId ++ js ": " ++ l.fields ++ reply free

end DeliveryLine

section Scans
variable {p : CodeUnit → Bool} {w s t v key u : JsString} {c : CodeUnit} {kv : JsString × JsString}

theorem many1_append (hw : Run p w) (hs : ∀ c ∈ s.head?, p c = false) : many1 p (w ++ s) = some (w,s) := by
  obtain ⟨hne,hall⟩ := hw
  obtain ⟨htake,hdrop⟩ := span_run hall hs
  rw [many1,htake,hdrop,if_neg hne]

private theorem many1_none (hs : ∀ c ∈ s.head?, p c = false) : many1 p s = none := by
  cases s with
  | nil => rfl
  | cons c s => simp [many1,hs c rfl]

theorem literal_append (text s : JsString) : literal text (text ++ s) = some s := by
  rw [literal,if_pos (by simp),List.drop_left]

private theorem many1_split {a b : JsString} (h : many1 p s = some (a,b)) : s = a ++ b := by
  rw [many1] at h
  split at h
  · cases h
  · cases h
    exact List.takeWhile_append_dropWhile.symm

private theorem literal_split {text rest : JsString} (h : literal text s = some rest) : s = text ++ rest := by
  rw [literal] at h
  split at h
  · rename_i hstarts
    cases h
    obtain ⟨after,rfl⟩ := List.isPrefixOf_iff_prefix.mp hstarts
    rw [List.drop_left]
  · cases h

/-- A match is the key, the sign, and the value at least. -/
theorem keyValue_split {v : JsString} (h : keyValue s = some ((key,v),t)) :
    ∃ read, s = read ++ t ∧ v.length < read.length := by
  rw [keyValue] at h
  obtain ⟨⟨word,s1⟩,hword,h⟩ := Option.bind_eq_some_iff.mp h
  obtain ⟨s2,heq,h⟩ := Option.bind_eq_some_iff.mp h
  obtain ⟨⟨value,s3⟩,hvalue,h⟩ := Option.bind_eq_some_iff.mp h
  obtain ⟨hkv,rfl⟩ := Prod.mk.inj (Option.some.inj h)
  obtain ⟨rfl,rfl⟩ := Prod.mk.inj hkv
  obtain rfl := many1_split hword
  obtain rfl := literal_split heq
  rcases Option.or_eq_some_iff.mp hvalue with hquoted | ⟨-,hplain⟩
  · obtain ⟨inner,hopen,hcut⟩ := Option.bind_eq_some_iff.mp hquoted
    obtain rfl := literal_split hopen
    obtain rfl := eq_of_cut hcut
    refine ⟨word ++ (js "=" ++ (js "<" ++ (value ++ [unit '>']))),by simp,?_⟩
    simp only [List.length_append,List.length_singleton]
    omega
  · obtain rfl := many1_split hplain
    refine ⟨word ++ (js "=" ++ value),by simp,?_⟩
    have hsign : (js "=").length = 1 := rfl
    rw [List.length_append,List.length_append,hsign]
    omega

theorem keyValue_rest (h : keyValue s = some (kv,t)) : t.length < s.length := by
  obtain ⟨read,rfl,hread⟩ := keyValue_split h
  rw [List.length_append]
  omega

/-- Fuel for every unit is enough. -/
theorem keyValues_fuel (n m : Nat) (s : JsString) (hn : s.length ≤ n) (hm : s.length ≤ m) :
    keyValues n s = keyValues m s := by
  induction n generalizing m s with
  | zero =>
    obtain rfl := List.length_eq_zero_iff.mp (Nat.le_zero.mp hn)
    induction m with
    | zero => rfl
    | succ m ih => exact ih (Nat.zero_le m)
  | succ n ih =>
    cases m with
    | zero =>
      obtain rfl := List.length_eq_zero_iff.mp (Nat.le_zero.mp hm)
      exact ih 0 [] (Nat.zero_le n) le_rfl
    | succ m =>
      rw [keyValues,keyValues]
      cases hkv : keyValue s with
      | none =>
        refine ih m s.tail ?_ ?_ <;> rw [List.length_tail] <;> omega
      | some found =>
        obtain ⟨kv,rest⟩ := found
        have hrest := keyValue_rest hkv
        dsimp only
        rw [ih m rest (by omega) (by omega)]

/-- All matches of a text. -/
def pairs (s : JsString) : List (JsString × JsString) := keyValues s.length s

theorem field_eq (s key : JsString) : field s key = (pairs s).reverse.lookup key := rfl

private theorem pairs_skip (h : keyValue (c :: s) = none) : pairs (c :: s) = pairs s := by
  rw [pairs,List.length_cons,keyValues,h]
  rfl

theorem pairs_match (h : keyValue s = some (kv,t)) : pairs s = kv :: pairs t := by
  have hrest := keyValue_rest h
  cases s with
  | nil => cases h
  | cons c s =>
    rw [pairs,List.length_cons,keyValues,h]
    dsimp only
    rw [keyValues_fuel s.length t.length t (by rw [List.length_cons] at hrest; omega) le_rfl]
    rfl

/-- A value is shorter than the text that it is found in. -/
theorem value_length (h : kv ∈ pairs s) : kv.2.length < s.length := by
  induction hn : s.length using Nat.strong_induction_on generalizing s with
  | h n ih =>
    subst hn
    cases s with
    | nil => exact absurd h List.not_mem_nil
    | cons c s =>
      cases hfound : keyValue (c :: s) with
      | none =>
        rw [pairs_skip hfound] at h
        exact (ih s.length (Nat.lt_succ_self _) h rfl).trans (Nat.lt_succ_self _)
      | some found =>
        obtain ⟨⟨key,v⟩,t⟩ := found
        have hrest := keyValue_rest hfound
        rw [pairs_match hfound] at h
        rcases List.mem_cons.mp h with rfl | hlater
        · obtain ⟨read,heq,hread⟩ := keyValue_split hfound
          rw [heq,List.length_append]
          exact Nat.lt_add_right _ hread
        · exact (ih t.length hrest hlater rfl).trans hrest

/-- A text whose last sign is a closing bracket, if it has one. -/
private def Closed (u : JsString) : Prop := ∀ c ∈ u.getLast?, c = unit '>'

private theorem Closed.rest (h : Closed (w ++ u)) : Closed u := by
  intro c hc
  refine h c ?_
  rw [List.getLast?_append,Option.mem_def.mp hc]
  rfl

private theorem Closed.mem (h : Closed u) (hu : u ≠ []) : unit '>' ∈ u := by
  rw [← h _ (List.getLast?_eq_some_getLast hu)]
  exact List.getLast_mem hu

private theorem many1_append_stop (hs : ∀ c ∈ s.head?, p c = false) :
    many1 p (w ++ s) = (many1 p w).map fun r => (r.1,r.2 ++ s) := by
  have hstop : s.takeWhile p = [] ∧ s.dropWhile p = s := span_run (List.forall_mem_nil _) hs
  by_cases hall : ∀ c ∈ w, p c = true
  · obtain ⟨htake,hdrop⟩ := span_run hall hs
    rw [many1,many1,htake,hdrop,List.takeWhile_eq_self_iff.mpr hall,List.dropWhile_eq_nil_iff.mpr hall]
    split <;> simp
  · have hlt : (w.takeWhile p).length ≠ w.length := by
      intro hlen
      exact hall (List.takeWhile_eq_self_iff.mp ((List.takeWhile_prefix p).eq_of_length hlen))
    have htake : (w ++ s).takeWhile p = w.takeWhile p := by rw [List.takeWhile_append,if_neg hlt]
    have hdrop : (w ++ s).dropWhile p = w.dropWhile p ++ s := by
      rw [List.dropWhile_append,if_neg]
      simpa using hall
    rw [many1,many1,htake,hdrop]
    split <;> simp

private theorem literal_append_stop {a : CodeUnit} (hs : ∀ c ∈ s.head?, c ≠ a) : literal [a] (w ++ s) = (literal [a] w).map (· ++ s) := by
  cases w with
  | nil =>
    cases s with
    | nil => simp [literal]
    | cons c s =>
      have hc := hs c rfl
      simp [literal,hc.symm]
  | cons b w => by_cases hb : a = b <;> simp [literal,hb]

/-- A match in front of a comma ends there, where a bracket that is opened has been closed. -/
private theorem keyValue_append (hu : Closed u) :
    keyValue (u ++ COMMA :: s) = (keyValue u).map fun r => (r.1,r.2 ++ COMMA :: s) := by
  have hword : ∀ c ∈ (COMMA :: s).head?, isWord c = false := by
    intro c hc
    cases hc
    decide
  have hsign : ∀ c ∈ (COMMA :: s).head?, c ≠ unit '=' := by
    intro c hc
    cases hc
    decide
  have hbracket : ∀ c ∈ (COMMA :: s).head?, c ≠ unit '<' := by
    intro c hc
    cases hc
    decide
  have hplain : ∀ c ∈ (COMMA :: s).head?, (!isSpace c && c != COMMA) = false := by
    intro c hc
    cases hc
    decide
  rw [keyValue,keyValue,many1_append_stop hword]
  cases hkey : many1 isWord u with
  | none => rfl
  | some found =>
    obtain ⟨key,u1⟩ := found
    obtain rfl := many1_split hkey
    simp only [Option.bind_eq_bind,Option.map_some,Option.bind_some]
    change (literal [unit '='] (u1 ++ COMMA :: s)).bind _ = ((literal [unit '='] u1).bind _).map _
    rw [literal_append_stop hsign]
    cases hequals : literal [unit '='] u1 with
    | none => rfl
    | some u2 =>
      obtain rfl := literal_split hequals
      have hclosed : Closed u2 := hu.rest.rest
      simp only [Option.map_some,Option.bind_some]
      rw [many1_append_stop hplain]
      have hquoted : (literal (js "<") (u2 ++ COMMA :: s)).bind (cut (unit '>')) =
          ((literal (js "<") u2).bind (cut (unit '>'))).map fun r => (r.1,r.2 ++ COMMA :: s) := by
        change (literal [unit '<'] (u2 ++ COMMA :: s)).bind _ = ((literal [unit '<'] u2).bind _).map _
        rw [literal_append_stop hbracket]
        cases hopen : literal [unit '<'] u2 with
        | none => rfl
        | some u3 =>
          obtain rfl := literal_split hopen
          have hne : u3 ≠ [] := by
            rintro rfl
            exact absurd (hclosed (unit '<') rfl) (by decide)
          obtain ⟨before,after,hu3,hbefore⟩ := List.eq_append_cons_of_mem (hclosed.rest.mem hne)
          rw [Option.map_some,Option.bind_some,Option.bind_some,hu3,List.append_assoc,List.cons_append,cut_append hbefore,
            cut_append hbefore]
          rfl
      rw [hquoted]
      cases (literal (js "<") u2).bind (cut (unit '>')) with
      | some r => rfl
      | none => cases many1 (fun c => !isSpace c && c != COMMA) u2 <;> rfl

theorem pairs_append (hu : Closed u) : pairs (u ++ COMMA :: s) = pairs u ++ pairs (COMMA :: s) := by
  induction hn : u.length using Nat.strong_induction_on generalizing u with
  | h n ih =>
    subst hn
    cases u with
    | nil => rfl
    | cons c u =>
      have hfound := @keyValue_append s (c :: u) hu
      cases hkv : keyValue (c :: u) with
      | none =>
        rw [hkv] at hfound
        rw [pairs_skip hkv]
        exact (pairs_skip hfound).trans (ih u.length (Nat.lt_succ_self _) (@Closed.rest [c] u hu) rfl)
      | some found =>
        obtain ⟨kv,t⟩ := found
        rw [hkv] at hfound
        obtain ⟨read,hread,-⟩ := keyValue_split hkv
        rw [pairs_match hkv,pairs_match hfound,ih t.length (keyValue_rest hkv) (hread ▸ hu).rest rfl]
        rfl

/-- No match begins in a word that no `=` follows. -/
theorem pairs_word (hw : ∀ a ∈ w, isWord a = true) (hc : isWord c = false) (heq : c ≠ unit '=') :
    pairs (w ++ c :: s) = pairs s := by
  induction w with
  | nil =>
    apply pairs_skip
    rw [keyValue,many1_none (by simpa using hc)]
    rfl
  | cons a w ih =>
    rw [← ih fun b hb => hw b (List.mem_cons_of_mem _ hb)]
    apply pairs_skip
    have hword : many1 isWord (a :: w ++ c :: s) = some (a :: w,c :: s) :=
      many1_append ⟨by simp,hw⟩ (by simpa using hc)
    have hliteral : literal (js "=") (c :: s) = none := by
      rw [literal,if_neg]
      simpa [js,utf16] using Ne.symm heq
    change keyValue (a :: w ++ c :: s) = none
    rw [keyValue,hword]
    simp only [Option.bind_eq_bind,Option.bind_some,hliteral]
    rfl

private theorem equals_head : ∀ c ∈ (js "=" ++ s).head?, isWord c = false := by
  intro c hc
  obtain rfl : unit '=' = c := Option.some.inj hc
  decide

theorem keyValue_quoted (hkey : Run isWord key) (hv : unit '>' ∉ v) (s : JsString) :
    keyValue (key ++ (js "=" ++ (js "<" ++ (v ++ unit '>' :: s)))) = some ((key,v),s) := by
  have hword : many1 isWord (key ++ (js "=" ++ (js "<" ++ (v ++ unit '>' :: s)))) =
      some (key,js "=" ++ (js "<" ++ (v ++ unit '>' :: s))) := many1_append hkey equals_head
  rw [keyValue,hword]
  simp only [Option.bind_eq_bind,Option.bind_some,literal_append,cut_append hv,Option.some_or]

theorem keyValue_plain (hkey : Run isWord key) (hv : PlainValue v) (hs : ∀ c ∈ s.head?, isSpace c ∨ c = COMMA) :
    keyValue (key ++ (js "=" ++ (v ++ s))) = some ((key,v),s) := by
  obtain ⟨hne,hall,hopen⟩ := hv
  have hword : many1 isWord (key ++ (js "=" ++ (v ++ s))) = some (key,js "=" ++ (v ++ s)) :=
    many1_append hkey equals_head
  have hquoted : literal (js "<") (v ++ s) = none := by
    cases v with
    | nil => exact absurd rfl hne
    | cons a v =>
      rw [literal,if_neg]
      simpa [js,utf16] using fun h => hopen (congrArg some h.symm)
  have hvalue : many1 (fun c => !isSpace c && c != COMMA) (v ++ s) = some (v,s) := by
    refine many1_append ⟨hne,hall⟩ fun c hc => ?_
    rcases hs c hc with hspace | rfl
    · simp [hspace]
    · simp
  rw [keyValue,hword]
  simp only [Option.bind_eq_bind,Option.bind_some,literal_append,hquoted,Option.bind_none,Option.none_or,hvalue]

end Scans

section Texts
variable (l : DeliveryLine) (free : JsString) {c : CodeUnit}

private theorem text_parts : l.text free = js "postfix" ++ unit '/' :: (l.component ++ unit '[' :: (l.pid ++ unit ']' ::
    ([] ++ unit ':' :: ([] ++ unit ' ' :: (l.queueId ++ unit ':' :: ([] ++ unit ' ' ::
      (l.fields ++ DeliveryLine.reply free))))))) := by
  simp only [DeliveryLine.text,List.append_assoc]
  rfl

private theorem fields_parts : l.fields ++ DeliveryLine.reply free =
    l.addressee ++ COMMA :: ([] ++ unit ' ' ::
      (js "relay" ++ (js "=" ++ (l.relay ++ unit ',' :: ([] ++ unit ' ' ::
        (js "delay" ++ (js "=" ++ (l.delay ++ unit ',' :: ([] ++ unit ' ' ::
          (js "dsn" ++ (js "=" ++ (l.dsn ++ unit ',' :: ([] ++ unit ' ' ::
            (js "status" ++ (js "=" ++ (l.status ++ DeliveryLine.reply free)))))))))))))))) := by
  simp only [DeliveryLine.fields,List.append_assoc]
  rfl

private theorem isWord_of_isDigit (h : isDigit c = true) : isWord c = true := of_isDigit (p := fun c => isWord c = true) (by decide) h

private theorem toNat_of_isWord (h : isWord c = true) : c.toNat < 128 := by
  by_contra hlarge
  have hlower : asciiLower c = c := by
    rw [asciiLower,if_neg]
    rw [UInt16.le_iff_toNat_le,UInt16.le_iff_toNat_le]
    change ¬(65 ≤ c.toNat ∧ c.toNat ≤ 90)
    omega
  rw [isWord,hlower,isAlphanumeric] at h
  simp only [Bool.or_eq_true,Bool.and_eq_true,decide_eq_true_eq,beq_iff_eq,UInt16.le_iff_toNat_le] at h
  change ((97 ≤ c.toNat ∧ c.toNat ≤ 122) ∨ 48 ≤ c.toNat ∧ c.toNat ≤ 57) ∨ c = 95 at h
  rcases h with (h | h) | rfl
  · omega
  · omega
  · exact hlarge (by decide)

private theorem not_isWord_of_isSpace (h : isSpace c = true) : ¬isWord c = true := by
  have hall : ∀ k < 128, isSpace k.toUInt16 = true → ¬isWord k.toUInt16 = true := by decide
  intro hword
  have hk := hall c.toNat (toNat_of_isWord hword)
  simp only [Nat.toUInt16_eq,UInt16.ofNat_toNat] at hk
  exact hk h hword

/-- A value at a comma, and the blank behind the comma. -/
private theorem pairs_value {key v s : JsString} (hkey : Run isWord key) (hv : PlainValue v) :
    pairs (key ++ (js "=" ++ (v ++ unit ',' :: ([] ++ unit ' ' :: s)))) = (key,v) :: pairs s := by
  have hcomma : ∀ c ∈ (unit ',' :: ([] ++ unit ' ' :: s)).head?, isSpace c ∨ c = COMMA := by
    intro c hc
    obtain rfl : unit ',' = c := Option.some.inj hc
    exact .inr rfl
  have hskip : pairs (unit ',' :: ([] ++ unit ' ' :: s)) = pairs s :=
    (pairs_word (w := []) (by simp) (by decide) (by decide)).trans
      (pairs_word (w := []) (by simp) (by decide) (by decide))
  rw [pairs_match (keyValue_plain hkey hv hcomma),hskip]

private theorem closed_addressee : Closed l.addressee := by
  intro c hc
  have hlast : l.addressee = js "to=<" ++ l.recipient ++ [unit '>'] := rfl
  rw [hlast,List.getLast?_concat] at hc
  exact (Option.some.inj hc).symm

/-- The pairs of a line: those of its recipient, its own, and those that its free text imitates. -/
theorem pairs_text : pairs (l.text free) = pairs l.addressee ++
    ([(js "relay",l.relay),(js "delay",l.delay),(js "dsn",l.dsn),(js "status",l.status)] ++ pairs (DeliveryLine.reply free)) := by
  have hblank : ∀ c ∈ (DeliveryLine.reply free).head?, isSpace c ∨ c = COMMA := by
    intro c hc
    obtain rfl : unit ' ' = c := Option.some.inj hc
    exact .inl (by decide)
  rw [text_parts,pairs_word (by decide) (by decide) (by decide),
    pairs_word l.component_word.2 (by decide) (by decide),
    pairs_word (fun c hc => isWord_of_isDigit (l.pid_digits.2 c hc)) (by decide) (by decide),
    pairs_word (by simp) (by decide) (by decide),pairs_word (by simp) (by decide) (by decide),
    pairs_word l.queueId_word.2 (by decide) (by decide),pairs_word (by simp) (by decide) (by decide)]
  have hcomma : ∀ s, pairs (COMMA :: s) = pairs s := fun s => pairs_word (w := []) (by simp) (by decide) (by decide)
  rw [fields_parts,pairs_append (closed_addressee l),hcomma,pairs_word (by simp) (by decide) (by decide),
    pairs_value (by decide) l.relay_plain,pairs_value (by decide) l.delay_plain,pairs_value (by decide) l.dsn_plain,
    pairs_match (keyValue_plain (by decide) l.status_plain hblank)]
  rfl

/-- A field is the last that the free text gives it, or else the line's own, or one in its recipient. -/
theorem field_text (key : JsString) : field (l.text free) key =
    (field (DeliveryLine.reply free) key).or
      (([(js "status",l.status),(js "dsn",l.dsn),(js "delay",l.delay),(js "relay",l.relay)].lookup key).or
        (field l.addressee key)) := by
  rw [field_eq,field_eq,field_eq,pairs_text,List.reverse_append,List.reverse_append,List.lookup_append,List.lookup_append,Option.or_assoc]
  rfl

/-- A bracket in the recipient ends what is read of it. -/
theorem field_addressee : field l.addressee (js "to") = some l.recipient ↔ unit '>' ∉ l.recipient := by
  have hmem : unit '>' ∈ l.recipient ++ [unit '>'] := by simp
  obtain ⟨before,after,hsplit,hbefore⟩ := List.eq_append_cons_of_mem hmem
  have haddressee : l.addressee = js "to" ++ (js "=" ++ (js "<" ++ (before ++ unit '>' :: after))) := by
    rw [← hsplit,DeliveryLine.addressee]
    simp only [List.append_assoc]
    rfl
  have hpairs : pairs l.addressee = (js "to",before) :: pairs after := by
    rw [haddressee]
    exact pairs_match (keyValue_quoted (by decide) hbefore after)
  have hlen := congrArg List.length hsplit
  simp only [List.length_append,List.length_cons,List.length_nil] at hlen
  constructor
  · intro hread hclosed
    have hkv : (js "to",l.recipient) ∈ pairs l.addressee := by
      obtain ⟨front,back,hboth,-⟩ := List.lookup_eq_some_iff.mp hread
      exact List.mem_reverse.mp (hboth ▸ by simp)
    rw [hpairs] at hkv
    rcases List.mem_cons.mp hkv with hfirst | hlater
    · exact hbefore ((Prod.mk.inj hfirst).2 ▸ hclosed)
    · have hshort := value_length hlater
      dsimp only at hshort
      omega
  · intro hopen
    have hcut := congrArg (cut (unit '>')) hsplit
    rw [cut_append hopen,cut_append hbefore] at hcut
    cases hcut
    rw [field_eq,hpairs]
    rfl

/-- A queue id as the parser looks for one. -/
def DeliveryLine.LongId (l : DeliveryLine) : Prop := (∀ c ∈ l.queueId, isHex c = true) ∧ 8 ≤ l.queueId.length

instance (l : DeliveryLine) : Decidable l.LongId := inferInstanceAs (Decidable (_ ∧ _))

private theorem postfixQid_text : postfixQid (l.text free) =
    (many1 isHex (l.queueId ++ (unit ':' :: (js " " ++ (l.fields ++ DeliveryLine.reply free))))).bind fun found =>
      (literal (js ":") found.2).bind fun _ =>
        if 8 ≤ found.1.length then some (l.component,found.1) else none := by
  have hparts : l.text free = js "postfix/" ++ (l.component ++ (js "[" ++ (l.pid ++ (js "]:" ++ ([unit ' '] ++
      (l.queueId ++ (unit ':' :: (js " " ++ (l.fields ++ DeliveryLine.reply free))))))))) := by
    simp only [DeliveryLine.text,List.append_assoc]
    rfl
  have hliteral : ∀ s, literalCi (js "postfix/") (js "postfix/" ++ s) = some s := by
    intro s
    rw [literalCi,List.take_left,List.drop_left,if_pos (by decide)]
  have hbracket : ∀ s, ∀ c ∈ (js "[" ++ s).head?, isWord c = false := by
    intro s c hc
    obtain rfl : unit '[' = c := Option.some.inj hc
    decide
  have hclose : ∀ s, ∀ c ∈ (js "]:" ++ s).head?, isDigit c = false := by
    intro s c hc
    obtain rfl : unit ']' = c := Option.some.inj hc
    decide
  have hspace : ∀ s, ∀ c ∈ (l.queueId ++ s).head?, isSpace c = false := by
    intro s c hc
    obtain ⟨hne,hall⟩ := l.queueId_word
    rw [List.head?_append_of_ne_nil _ hne] at hc
    have hword := hall c (List.mem_of_mem_head? hc)
    by_contra hblank
    rw [Bool.not_eq_false] at hblank
    exact not_isWord_of_isSpace hblank hword
  rw [hparts,postfixQid,hliteral]
  simp only [Option.bind_eq_bind,Option.bind_some,many1_append l.component_word (hbracket _),literal_append,
    many1_append l.pid_digits (hclose _),many1_append (p := isSpace) (w := [unit ' ']) (by decide) (hspace _)]

private theorem literal_colon (s : JsString) : literal (js ":") (unit ':' :: s) = some s := literal_append (js ":") s

theorem postfixQid_long (h : l.LongId) : postfixQid (l.text free) = some (l.component,l.queueId) := by
  obtain ⟨hhex,hlen⟩ := h
  have hcolon : ∀ s, ∀ c ∈ (unit ':' :: s).head?, isHex c = false := by
    intro s c hc
    obtain rfl : unit ':' = c := Option.some.inj hc
    decide
  rw [postfixQid_text,many1_append ⟨l.queueId_word.1,hhex⟩ (hcolon _),Option.bind_some]
  dsimp only
  rw [literal_colon,Option.bind_some,if_pos hlen]

/-- Any other queue id is none to the parser. -/
theorem postfixQid_short (h : ¬l.LongId) : postfixQid (l.text free) = none := by
  rw [postfixQid_text]
  by_cases hhex : ∀ c ∈ l.queueId, isHex c = true
  · have hlen : ¬8 ≤ l.queueId.length := fun hlen => h ⟨hhex,hlen⟩
    have hcolon : ∀ s, ∀ c ∈ (unit ':' :: s).head?, isHex c = false := by
      intro s c hc
      obtain rfl : unit ':' = c := Option.some.inj hc
      decide
    rw [many1_append ⟨l.queueId_word.1,hhex⟩ (hcolon _),Option.bind_some]
    dsimp only
    rw [literal_colon,Option.bind_some,if_neg hlen]
  · -- the run of digits ends inside the queue id, and no colon follows it
    obtain ⟨read,c,behind,hid,hread,hc⟩ : ∃ read c behind, l.queueId = read ++ c :: behind ∧
        (∀ a ∈ read, isHex a = true) ∧ isHex c = false := by
      have hparts := List.takeWhile_append_dropWhile (p := isHex) (l := l.queueId)
      cases hdrop : l.queueId.dropWhile isHex with
      | nil =>
        rw [hdrop,List.append_nil] at hparts
        exact absurd (fun a ha => List.mem_takeWhile_imp (hparts ▸ ha)) hhex
      | cons c behind =>
        have hnot := List.head?_dropWhile_not isHex l.queueId
        rw [hdrop] at hnot hparts
        exact ⟨_,c,behind,hparts.symm,fun a ha => List.mem_takeWhile_imp ha,hnot⟩
    have hword : isWord c = true := l.queueId_word.2 c (by simp [hid])
    have hliteral : ∀ s, literal (js ":") (c :: s) = none := by
      intro s
      rw [literal,if_neg]
      have hne : c ≠ unit ':' := by
        rintro rfl
        exact absurd hword (by decide)
      simpa [js,utf16] using Ne.symm hne
    rw [hid,List.append_assoc]
    by_cases hempty : read = []
    · rw [hempty,List.nil_append,many1_none (by simpa using hc)]
      rfl
    · rw [many1_append ⟨hempty,hread⟩ (by simpa using hc),Option.bind_some,List.cons_append,hliteral]
      rfl

theorem search_component {message component queueId : JsString}
    (h : search postfixQid message = some (component,queueId)) : ∀ c ∈ component, isWord c = true := by
  have hone : ∀ s, postfixQid s = some (component,queueId) → ∀ c ∈ component, isWord c = true := by
    intro s hs
    rw [postfixQid] at hs
    obtain ⟨s1,-,hs⟩ := Option.bind_eq_some_iff.mp hs
    obtain ⟨⟨word,s2⟩,hword,hs⟩ := Option.bind_eq_some_iff.mp hs
    obtain ⟨s3,-,hs⟩ := Option.bind_eq_some_iff.mp hs
    obtain ⟨s4,-,hs⟩ := Option.bind_eq_some_iff.mp hs
    obtain ⟨s5,-,hs⟩ := Option.bind_eq_some_iff.mp hs
    obtain ⟨s6,-,hs⟩ := Option.bind_eq_some_iff.mp hs
    obtain ⟨s7,-,hs⟩ := Option.bind_eq_some_iff.mp hs
    obtain ⟨s8,-,hs⟩ := Option.bind_eq_some_iff.mp hs
    split at hs
    · cases hs
      rw [many1] at hword
      split at hword
      · cases hword
      · cases hword
        exact fun c hc => List.mem_takeWhile_imp hc
    · cases hs
  induction message with
  | nil => exact hone [] h
  | cons c s ih =>
    rcases Option.or_eq_some_iff.mp h with hhere | ⟨-,hlater⟩
    · exact hone _ hhere
    · exact ih hlater

end Texts

section Events
variable {ν : Type} (b : Builtins ν) (round1000 : ν → ν)

/-- The event with the two fields that no query reads; `round1000` is `Math.round(n * 1000)`. -/
structure PostfixEvent (ν : Type) extends ParsedEvent ν where
  relay : Option JsString
  delayMs : Option ν

def parseDelivery (message : JsString) : Option (PostfixEvent ν) :=
  (parsePostfix b message).map fun event =>
    ⟨event,field message (js "relay"),(truthy (field message (js "delay"))).map fun delay => round1000 (b.number delay)⟩

namespace DeliveryLine

/-- The event shows the fields of the line. -/
structure Shows (l : DeliveryLine) (e : PostfixEvent ν) : Prop where
  event : e.event = js "postfix." ++ l.component ++ js "." ++ l.status
  recipient : e.toAddr = some l.recipient
  relay : e.relay = some l.relay
  dsn : e.dsn = some l.dsn
  delay : e.delayMs = some (round1000 (b.number l.delay))

/-- The queue id is one to the parser, or the text behind it brings the component up
again; every field that the free text gives last is the line's own; and a recipient with a
closing bracket is one that it gives. -/
structure Unspoofed (l : DeliveryLine) (free : JsString) : Prop where
  queueId : l.LongId ∨ (search postfixQid (l.text free).tail).map (·.1) = some l.component
  recipient : ∀ v ∈ field (reply free) (js "to"), v = l.recipient
  relay : ∀ v ∈ field (reply free) (js "relay"), v = l.relay
  delay : ∀ v ∈ field (reply free) (js "delay"), v ≠ [] ∧ round1000 (b.number v) = round1000 (b.number l.delay)
  dsn : ∀ v ∈ field (reply free) (js "dsn"), v = l.dsn
  status : ∀ v ∈ field (reply free) (js "status"), v = l.status
  bracket : unit '>' ∈ l.recipient → (field (reply free) (js "to")).isSome = true

end DeliveryLine

variable {b round1000} (l : DeliveryLine) (free : JsString)

private theorem or_some_iff {α : Type} {o : Option α} {x : α} : o.or (some x) = some x ↔ ∀ v ∈ o, v = x := by
  cases o <;> simp

private theorem truthy_some {v : JsString} (hv : v ≠ []) : truthy (some v) = some v := by
  simp [truthy,hv]

theorem component_iff : (search postfixQid (l.text free)).map (·.1) = some l.component ↔
    l.LongId ∨ (search postfixQid (l.text free).tail).map (·.1) = some l.component := by
  obtain ⟨c,s,htext⟩ : ∃ c s, l.text free = c :: s := by
    rw [text_parts]
    exact ⟨_,_,rfl⟩
  have hsearch : search postfixQid (l.text free) = (postfixQid (l.text free)).or (search postfixQid (l.text free).tail) := by
    rw [htext]
    rfl
  rw [hsearch]
  by_cases hlong : l.LongId
  · rw [postfixQid_long l free hlong]
    exact iff_of_true rfl (.inl hlong)
  · rw [postfixQid_short l free hlong,Option.none_or]
    exact ⟨.inr,fun h => h.resolve_left hlong⟩

private theorem event_iff {component status' : JsString} (hcomponent : ∀ c ∈ component, isWord c = true) :
    js "postfix." ++ component ++ js "." ++ status' = js "postfix." ++ l.component ++ js "." ++ l.status ↔
      component = l.component ∧ status' = l.status := by
  have hdot : ∀ w : JsString, (∀ c ∈ w, isWord c = true) → unit '.' ∉ w := by
    intro w hw hmem
    exact absurd (hw _ hmem) (by decide)
  constructor
  · intro he
    rw [List.append_assoc,List.append_assoc,List.append_assoc,List.append_assoc,List.append_cancel_left_eq] at he
    have hcut := congrArg (cut (unit '.')) he
    change cut (unit '.') (component ++ unit '.' :: status') = cut (unit '.') (l.component ++ unit '.' :: l.status) at hcut
    rw [cut_append (hdot _ hcomponent),cut_append (hdot _ l.component_word.2)] at hcut
    exact Prod.mk.inj (Option.some.inj hcut)
  · rintro ⟨rfl,rfl⟩
    rfl

private theorem event_ne {component : JsString} (hcomponent : ∀ c ∈ component, isWord c = true) :
    js "postfix." ++ component ≠ js "postfix." ++ l.component ++ js "." ++ l.status := by
  intro he
  rw [List.append_assoc,List.append_assoc,List.append_cancel_left_eq] at he
  have hword := hcomponent (unit '.') (by
    rw [he]
    simp [js,utf16])
  exact absurd hword (by decide)

structure ReadOff (b : Builtins ν) (round1000 : ν → ν) (message component : JsString) (e : PostfixEvent ν) : Prop where
  event : e.event = match truthy (field message (js "status")),truthy (field message (js "dsn")) with
    | some status,some _ => js "postfix." ++ component ++ js "." ++ status
    | _,_ => js "postfix." ++ component
  recipient : e.toAddr = field message (js "to")
  relay : e.relay = field message (js "relay")
  dsn : e.dsn = field message (js "dsn")
  delay : e.delayMs = (truthy (field message (js "delay"))).map fun delay => round1000 (b.number delay)

theorem parseDelivery_found (b : Builtins ν) (round1000 : ν → ν) {message component queueId : JsString}
    (h : search postfixQid message = some (component,queueId)) :
    ∃ e, parseDelivery b round1000 message = some e ∧ ReadOff b round1000 message component e := by
  rw [parseDelivery,parsePostfix,h]
  exact ⟨_,rfl,⟨rfl,rfl,rfl,rfl,rfl⟩⟩

theorem parseDelivery_none (b : Builtins ν) (round1000 : ν → ν) {message : JsString}
    (h : search postfixQid message = none) : parseDelivery b round1000 message = none := by
  rw [parseDelivery,parsePostfix,h]
  rfl

private theorem own_field (key : JsString) {own : JsString}
    (h : [(js "status",l.status),(js "dsn",l.dsn),(js "delay",l.delay),(js "relay",l.relay)].lookup key = some own) :
    field (l.text free) key = some own ↔ ∀ v ∈ field (DeliveryLine.reply free) key, v = own := by
  rw [field_text,h,Option.some_or]
  exact or_some_iff

private theorem own_recipient : field (l.text free) (js "to") = some l.recipient ↔
    (∀ v ∈ field (DeliveryLine.reply free) (js "to"), v = l.recipient) ∧
      (unit '>' ∈ l.recipient → (field (DeliveryLine.reply free) (js "to")).isSome = true) := by
  have hnone : [(js "status",l.status),(js "dsn",l.dsn),(js "delay",l.delay),(js "relay",l.relay)].lookup (js "to") = none := rfl
  rw [field_text,hnone,Option.none_or]
  cases field (DeliveryLine.reply free) (js "to") with
  | none =>
    rw [Option.none_or,field_addressee]
    simp
  | some v => simp

private theorem own_delay (b : Builtins ν) (round1000 : ν → ν) :
    (truthy (field (l.text free) (js "delay"))).map (fun delay => round1000 (b.number delay)) =
      some (round1000 (b.number l.delay)) ↔
    ∀ v ∈ field (DeliveryLine.reply free) (js "delay"), v ≠ [] ∧ round1000 (b.number v) = round1000 (b.number l.delay) := by
  rw [field_text]
  cases field (DeliveryLine.reply free) (js "delay") with
  | none =>
    refine iff_of_true ?_ (by simp)
    change (truthy (some l.delay)).map _ = _
    rw [truthy_some l.delay_plain.1]
    rfl
  | some v =>
    rw [Option.some_or]
    by_cases hv : v = []
    · simp [hv,truthy]
    · simp [hv,truthy_some hv]

/-- The event of a line whose own diagnostic code is read. -/
private theorem own_event {e : PostfixEvent ν} {component : JsString} (hcomponent : ∀ c ∈ component, isWord c = true)
    (he : ReadOff b round1000 (l.text free) component e) (hdsn : field (l.text free) (js "dsn") = some l.dsn) :
    e.event = js "postfix." ++ l.component ++ js "." ++ l.status ↔
      component = l.component ∧ field (l.text free) (js "status") = some l.status := by
  rw [he.event,hdsn,truthy_some l.dsn_plain.1]
  cases hstatus : truthy (field (l.text free) (js "status")) with
  | none =>
    refine iff_of_false (event_ne l hcomponent) fun h => ?_
    rw [h.2,truthy_some l.status_plain.1] at hstatus
    cases hstatus
  | some status =>
    have hread : field (l.text free) (js "status") = some status := (Option.filter_eq_some_iff.mp hstatus).1
    rw [hread,Option.some.injEq]
    exact event_iff l hcomponent

/-- Exactly which free texts leave the fields of the line alone. -/
theorem delivery_shown_iff (b : Builtins ν) (round1000 : ν → ν) (l : DeliveryLine) (free : JsString) :
    (∃ e, parseDelivery b round1000 (l.text free) = some e ∧ l.Shows b round1000 e) ↔
      l.Unspoofed b round1000 free := by
  have hto := own_recipient l free
  have hrelay := own_field l free (js "relay") rfl
  have hdsn := own_field l free (js "dsn") rfl
  have hstatus := own_field l free (js "status") rfl
  have hdelay := own_delay l free b round1000
  have hcomponent := component_iff l free
  cases hfound : search postfixQid (l.text free) with
  | none =>
    rw [hfound] at hcomponent
    refine iff_of_false ?_ fun h => ?_
    · rw [parseDelivery_none b round1000 hfound]
      rintro ⟨e,he,-⟩
      cases he
    · cases hcomponent.mpr h.queueId
  | some found =>
    obtain ⟨component,queueId⟩ := found
    obtain ⟨e,hparse,he⟩ := parseDelivery_found b round1000 hfound
    have hevent := own_event l free (search_component hfound) he
    rw [hfound,Option.map_some,Option.some.injEq] at hcomponent
    constructor
    · rintro ⟨e',hparse',h⟩
      obtain rfl : e = e' := Option.some.inj (hparse.symm.trans hparse')
      have hown := he.dsn.symm.trans h.dsn
      obtain ⟨hname,hstatusOwn⟩ := (hevent hown).mp h.event
      obtain ⟨hrecipient,hbracket⟩ := hto.mp (he.recipient.symm.trans h.recipient)
      exact ⟨hcomponent.mp hname,hrecipient,hrelay.mp (he.relay.symm.trans h.relay),
        hdelay.mp (he.delay.symm.trans h.delay),hdsn.mp hown,hstatus.mp hstatusOwn,hbracket⟩
    · intro h
      have hown := hdsn.mpr h.dsn
      refine ⟨e,hparse,(hevent hown).mpr ⟨hcomponent.mpr h.queueId,hstatus.mpr h.status⟩,?_,?_,?_,?_⟩
      · exact he.recipient.trans (hto.mpr ⟨h.recipient,h.bracket⟩)
      · exact he.relay.trans (hrelay.mpr h.relay)
      · exact he.dsn.trans hown
      · exact he.delay.trans (hdelay.mpr h.delay)

def bouncedLine : DeliveryLine where
  component := js "smtp"
  pid := js "12"
  queueId := js "4F1A2B3C4D"
  recipient := js "bob@ex.org"
  relay := js "mx.ex.org[192.0.2.1]:25"
  delay := js "1.2"
  dsn := js "5.1.1"
  status := js "bounced"
  component_word := by decide
  pid_digits := by decide
  queueId_word := by decide
  relay_plain := by decide
  delay_plain := by decide
  dsn_plain := by decide
  status_plain := by decide

/-- A reply that imitates fields turns a bounce into a delivery. -/
theorem reply_spoofs_event :
    (parseDelivery asciiBuiltins id (bouncedLine.text (js "said: 550 no"))).map (·.event) = some (js "postfix.smtp.bounced") ∧
    (parseDelivery asciiBuiltins id (bouncedLine.text (js "said: dsn=2.0.0, status=sent,"))).map (·.event) =
      some (js "postfix.smtp.sent") := by
  decide +kernel

end Events
end JustMail.Observability
