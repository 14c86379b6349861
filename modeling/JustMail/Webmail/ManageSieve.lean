import JustMail.Foundation.CodeUnits
import JustMail.Foundation.Decimal
import JustMail.Foundation.StreamReader
import JustMail.Foundation.Utf16

/-! `webmail/managesieve.client.ts`: how the client reads responses from the bytes of the server. -/
namespace JustMail.Webmail.ManageSieve
open Foundation StreamReader

section Model

abbrev Bytes := List UInt8

inductive Status where
  | ok
  | no
  | bye
  deriving DecidableEq

structure Response where
  status : Status
  response : JsString
  lines : List JsString
  deriving DecidableEq

/-- The slices around the first CRLF. -/
def cutLine : Bytes → Option (Bytes × Bytes)
  | [] => none
  | b :: rest => if b = 13 ∧ rest.head? = some 10 then some ([],rest.tail) else (cutLine rest).map fun p => (b :: p.1,p.2)

/-- `/\{(\d+)\+?\}$/`: what stands before the match, and the count. No buffer holds as many bytes as a count that is not
exact as a JavaScript number. -/
def literalOf (line : JsString) : Option (JsString × Nat) :=
  match line.reverse with
  | [] => none
  | c :: rest =>
    if c = unit '}' then
      let rest := if rest.head? = some (unit '+') then rest.tail else rest
      let digits := rest.takeWhile isDigit
      match rest.dropWhile isDigit with
      | [] => none
      | d :: before => if d = unit '{' ∧ digits ≠ [] then some (before.reverse,digitsValue digits.reverse) else none
    else none

variable (utf8 : Bytes → JsString) (cm : CaseMapping)

def statusOf (line : JsString) : Option Status :=
  let upper := cm.toUpperCase line
  if js "OK" <+: upper then some .ok
  else if js "NO" <+: upper then some .no
  else if js "BYE" <+: upper then some .bye
  else none

/-- `readExact` where it does not wait. -/
def readExact (n : Nat) (buffer : Bytes) : Option (Bytes × Bytes) :=
  if buffer.length < n then none else some (buffer.take n,buffer.drop n)

/-- `readLineRaw` where it does not wait. -/
def readLineRaw (buffer : Bytes) : Option (JsString × Bytes) := (cutLine buffer).map fun p => (utf8 p.1,p.2)

/-- The variables of `readResponse` and `readLogicalLine`, and the literal that `readExact` has been asked for: what stands
before it in its line, and its count. -/
structure Reading where
  lines : List JsString
  result : JsString
  literal : Option (JsString × Nat)

/-- What `readResponse` does with a logical line. -/
def takeLine (lines : List JsString) (line : JsString) : Reading ⊕ Response :=
  match statusOf cm line with
  | some status => .inr ⟨status,line,lines⟩
  | none => .inl ⟨lines ++ [line],[],none⟩

/-- From one wait to the next: one line or one literal. -/
def advance (r : Reading) (buffer : Bytes) : Option ((Reading ⊕ Response) × Bytes) :=
  match r.literal with
  | some (before,n) =>
    (readExact n buffer).map fun p => (.inl { r with result := r.result ++ (before ++ utf8 p.1), literal := none },p.2)
  | none =>
    (readLineRaw utf8 buffer).map fun p =>
      match literalOf p.1 with
      | some found => (.inl { r with literal := some found },p.2)
      | none => (takeLine cm r.lines (r.result ++ p.1),p.2)

end Model

section Pieces
variable {utf8 : Bytes → JsString} {cm : CaseMapping} {b raw rest lit : Bytes} {line : JsString}

theorem cutLine_eq_some (h : cutLine b = some (raw,rest)) : b = raw ++ 13 :: 10 :: rest := by
  induction b generalizing raw with
  | nil => cases h
  | cons c b ih =>
    rw [cutLine] at h
    split at h
    · rename_i hend
      obtain ⟨rfl,hhead⟩ := hend
      cases h
      obtain ⟨b',rfl⟩ := List.head?_eq_some_iff.mp hhead
      rfl
    · obtain ⟨p,hp,heq⟩ := Option.map_eq_some_iff.mp h
      cases heq
      rw [List.cons_append,← ih hp]

theorem cutLine_append (h : cutLine b = some (raw,rest)) (more : Bytes) : cutLine (b ++ more) = some (raw,rest ++ more) := by
  induction b generalizing raw with
  | nil => cases h
  | cons c b ih =>
    rw [cutLine] at h
    split at h
    · rename_i hend
      obtain ⟨rfl,hhead⟩ := hend
      cases h
      obtain ⟨b',rfl⟩ := List.head?_eq_some_iff.mp hhead
      rfl
    · rename_i hgo
      obtain ⟨p,hp,heq⟩ := Option.map_eq_some_iff.mp h
      cases heq
      have hne : b ≠ [] := by
        rintro rfl
        cases hp
      rw [List.cons_append,cutLine,List.head?_append_of_ne_nil _ hne,if_neg hgo,ih hp]
      rfl

theorem readExact_append {n : Nat} (h : readExact n b = some (lit,rest)) (more : Bytes) :
    readExact n (b ++ more) = some (lit,rest ++ more) := by
  unfold readExact at *
  split at h
  · cases h
  · cases h
    rw [if_neg (by rw [List.length_append]; omega),List.take_append_of_le_length (by omega),List.drop_append_of_le_length (by omega)]

theorem readLineRaw_append (h : readLineRaw utf8 b = some (line,rest)) (more : Bytes) :
    readLineRaw utf8 (b ++ more) = some (line,rest ++ more) := by
  obtain ⟨p,hp,heq⟩ := Option.map_eq_some_iff.mp h
  cases heq
  rw [readLineRaw,cutLine_append hp]
  rfl

theorem advance_append {r : Reading} {next : Reading ⊕ Response} (more : Bytes) (h : advance utf8 cm r b = some (next,rest)) :
    advance utf8 cm r (b ++ more) = some (next,rest ++ more) := by
  unfold advance at *
  split at h
  · obtain ⟨p,hp,heq⟩ := Option.map_eq_some_iff.mp h
    cases heq
    rw [readExact_append hp]
    rfl
  · obtain ⟨p,hp,heq⟩ := Option.map_eq_some_iff.mp h
    rw [readLineRaw_append hp,Option.map_some]
    dsimp only
    split at heq
    · cases heq
      rfl
    · cases heq
      rfl

/-- Twice the bytes, and one for a literal that is due. -/
def Reading.size (r : Reading) (b : Bytes) : Nat := 2*b.length + if r.literal.isSome then 1 else 0

theorem takeLine_literal {lines : List JsString} {r : Reading} (h : takeLine cm lines line = .inl r) : r.literal = none := by
  unfold takeLine at h
  split at h
  · cases h
  · cases h
    rfl

theorem length_readLineRaw (h : readLineRaw utf8 b = some (line,rest)) : rest.length + 2 ≤ b.length := by
  obtain ⟨p,hp,heq⟩ := Option.map_eq_some_iff.mp h
  cases heq
  rw [cutLine_eq_some hp]
  simp only [List.length_append,List.length_cons]
  omega

theorem size_lt {r r' : Reading} (h : advance utf8 cm r b = some (.inl r',rest)) : r'.size rest < r.size b := by
  unfold advance at h
  split at h
  · rename_i found hliteral
    obtain ⟨p,hp,heq⟩ := Option.map_eq_some_iff.mp h
    obtain ⟨hr,rfl⟩ := Prod.mk.inj heq
    cases hr
    unfold readExact at hp
    split at hp
    · cases hp
    · cases hp
      simp only [Reading.size,hliteral,List.length_drop,Option.isSome_some,Option.isSome_none,if_true,Bool.false_eq_true,if_false]
      omega
  · rename_i hliteral
    obtain ⟨p,hp,heq⟩ := Option.map_eq_some_iff.mp h
    have hlen := length_readLineRaw hp
    split at heq
    · obtain ⟨hr,rfl⟩ := Prod.mk.inj heq
      cases hr
      simp only [Reading.size,Option.isSome_some,if_true]
      omega
    · obtain ⟨hr,rfl⟩ := Prod.mk.inj heq
      rw [Reading.size,Reading.size,takeLine_literal hr]
      simp only [Option.isSome_none,Bool.false_eq_true,if_false]
      omega

/-- The client as a reader of its socket. -/
def reader (utf8 : Bytes → JsString) (cm : CaseMapping) : StreamReader UInt8 Reading Response where
  start := ⟨[],[],none⟩
  advance := advance utf8 cm
  size := Reading.size
  advance_append := advance_append
  size_lt := size_lt

/-- A line and, where it ends in a count, exactly so many bytes and the line that follows them; or what is left from the
line or the bytes on that are not whole. -/
def logicalLine (utf8 : Bytes → JsString) (b : Bytes) : Except Bytes (JsString × Bytes) :=
  match _h : readLineRaw utf8 b with
  | none => .error b
  | some (line,rest) =>
    match literalOf line with
    | none => .ok (line,rest)
    | some (before,n) =>
      if rest.length < n then .error rest
      else match logicalLine utf8 (rest.drop n) with
        | .error left => .error left
        | .ok (more,rest') => .ok (before ++ utf8 (rest.take n) ++ more,rest')
termination_by b.length
decreasing_by
  have hlen := length_readLineRaw _h
  rw [List.length_drop]
  omega

theorem logicalLine_none {b : Bytes} (h : readLineRaw utf8 b = none) : logicalLine utf8 b = .error b := by
  rw [logicalLine]
  split <;> simp_all

theorem logicalLine_some (h : readLineRaw utf8 b = some (line,rest)) :
    logicalLine utf8 b =
      match literalOf line with
      | none => .ok (line,rest)
      | some (before,n) =>
        if rest.length < n then .error rest
        else match logicalLine utf8 (rest.drop n) with
          | .error left => .error left
          | .ok (more,rest') => .ok (before ++ utf8 (rest.take n) ++ more,rest') := by
  rw [logicalLine]
  split
  · rename_i hnone
    rw [h] at hnone
    cases hnone
  · rename_i line' rest' hsome
    obtain ⟨rfl,rfl⟩ := Prod.mk.inj (Option.some.inj (h.symm.trans hsome))
    rfl

theorem length_logicalLine (h : logicalLine utf8 b = .ok (line,rest)) : rest.length < b.length := by
  induction hn : b.length using Nat.strongRecOn generalizing b line with
  | ind n ih =>
    subst hn
    cases hraw : readLineRaw utf8 b with
    | none =>
      rw [logicalLine_none hraw] at h
      cases h
    | some p =>
      have hlen := length_readLineRaw hraw
      rw [logicalLine_some hraw] at h
      cases hliteral : literalOf p.1 with
      | none =>
        rw [hliteral] at h
        cases h
        omega
      | some found =>
        have hdrop : (p.2.drop found.2).length ≤ p.2.length := by
          rw [List.length_drop]
          omega
        rw [hliteral] at h
        dsimp only at h
        split at h
        · cases h
        · split at h
          · cases h
          · rename_i hmore
            cases h
            have hlt := ih _ (by omega) hmore rfl
            omega

/-- Lines up to the first that begins with a status. -/
def response (utf8 : Bytes → JsString) (cm : CaseMapping) (lines : List JsString) (b : Bytes) : Except Bytes (Response × Bytes) :=
  match _h : logicalLine utf8 b with
  | .error left => .error left
  | .ok (line,rest) =>
    match statusOf cm line with
    | some status => .ok (⟨status,line,lines⟩,rest)
    | none => response utf8 cm (lines ++ [line]) rest
termination_by b.length
decreasing_by exact length_logicalLine _h

theorem response_error {lines : List JsString} {b left : Bytes} (h : logicalLine utf8 b = .error left) :
    response utf8 cm lines b = .error left := by
  rw [response]
  split <;> simp_all

theorem response_ok {lines : List JsString} (h : logicalLine utf8 b = .ok (line,rest)) :
    response utf8 cm lines b =
      match statusOf cm line with
      | some status => .ok (⟨status,line,lines⟩,rest)
      | none => response utf8 cm (lines ++ [line]) rest := by
  rw [response]
  split
  · rename_i herror
    rw [h] at herror
    cases herror
  · rename_i line' rest' hok
    obtain ⟨rfl,rfl⟩ := Prod.mk.inj (Except.ok.inj (h.symm.trans hok))
    rfl

/-- The answers of so many calls of `readResponse`, given the whole stream and the error that ends it. -/
def framed (utf8 : Bytes → JsString) (cm : CaseMapping) (failure : Option JsString) : Nat → Bytes → List (Except JsString Response)
  | 0,_ => []
  | n+1,b => settle failure (framed utf8 cm failure n) (response utf8 cm [] b)

theorem finish_line (lines : List JsString) (result : JsString) (b : Bytes) :
    (reader utf8 cm).finish ⟨lines,result,none⟩ b =
      match logicalLine utf8 b with
      | .error left => .error left
      | .ok (line,rest) =>
        match takeLine cm lines (result ++ line) with
        | .inr r => .ok (r,rest)
        | .inl r => (reader utf8 cm).finish r rest := by
  induction hn : b.length using Nat.strongRecOn generalizing b result with
  | ind n ih =>
    subst hn
    cases hraw : readLineRaw utf8 b with
    | none =>
      have hadvance : (reader utf8 cm).advance ⟨lines,result,none⟩ b = none := by
        simp only [reader,advance,hraw,Option.map_none]
      rw [finish_none hadvance,logicalLine_none hraw]
    | some p =>
      obtain ⟨line,rest⟩ := p
      have hlen := length_readLineRaw hraw
      rw [logicalLine_some hraw]
      cases hliteral : literalOf line with
      | none =>
        have hadvance : (reader utf8 cm).advance ⟨lines,result,none⟩ b = some (takeLine cm lines (result ++ line),rest) := by
          simp only [reader,advance,hraw,Option.map_some,hliteral]
        dsimp only
        cases htake : takeLine cm lines (result ++ line) with
        | inr r => exact finish_done (hadvance.trans (by rw [htake]))
        | inl r => exact finish_more (hadvance.trans (by rw [htake]))
      | some found =>
        obtain ⟨before,n⟩ := found
        have hadvance : (reader utf8 cm).advance ⟨lines,result,none⟩ b = some (.inl ⟨lines,result,some (before,n)⟩,rest) := by
          simp only [reader,advance,hraw,Option.map_some,hliteral]
        rw [finish_more hadvance]
        dsimp only
        by_cases hshort : rest.length < n
        · have hstop : (reader utf8 cm).advance ⟨lines,result,some (before,n)⟩ rest = none := by
            simp only [reader,advance,readExact,if_pos hshort,Option.map_none]
          rw [finish_none hstop,if_pos hshort]
        · have hgo : (reader utf8 cm).advance ⟨lines,result,some (before,n)⟩ rest =
              some (.inl ⟨lines,result ++ (before ++ utf8 (rest.take n)),none⟩,rest.drop n) := by
            simp only [reader,advance,readExact,if_neg hshort,Option.map_some]
          rw [finish_more hgo,if_neg hshort,ih _ (by rw [List.length_drop]; omega) _ _ rfl]
          cases logicalLine utf8 (rest.drop n) with
          | error left => rfl
          | ok q => simp only [List.append_assoc]

theorem finish_response (lines : List JsString) (b : Bytes) :
    (reader utf8 cm).finish ⟨lines,[],none⟩ b = response utf8 cm lines b := by
  induction hn : b.length using Nat.strongRecOn generalizing b lines with
  | ind n ih =>
    subst hn
    rw [finish_line]
    cases hline : logicalLine utf8 b with
    | error left => rw [response_error hline]
    | ok p =>
      obtain ⟨line,rest⟩ := p
      rw [response_ok hline]
      dsimp only
      rw [List.nil_append,takeLine]
      cases hstatus : statusOf cm line with
      | some status => rfl
      | none => exact ih _ (length_logicalLine hline) (lines ++ [line]) rest rfl

theorem answers_eq_framed (failure : Option JsString) (n : Nat) (b : Bytes) :
    (reader utf8 cm).answers failure n b = framed utf8 cm failure n b := by
  induction n generalizing b with
  | zero => rfl
  | succ n ih =>
    rw [answers,framed,show (reader utf8 cm).start = ⟨[],[],none⟩ from rfl,finish_response,funext ih]

def CONNECTION_CLOSED : JsString := js "ManageSieve connection closed"

/-- The client on one socket, from `attach` on. -/
abbrev ClientRun (utf8 : Bytes → JsString) (cm : CaseMapping) (es : List (SessionEvent UInt8 JsString))
    (t : Session UInt8 Reading Response JsString) : Prop := (reader utf8 cm).run CONNECTION_CLOSED .fresh es = some t ∧ t.AtRest

theorem framing_independent {es : List (SessionEvent UInt8 JsString)} {t : Session UInt8 Reading Response JsString}
    (h : ClientRun utf8 cm es t) :
    t.log = framed utf8 cm t.failure (callsOf es) (streamOf es) ∧
    (∃ es' t', ClientRun utf8 cm es' t' ∧ chunksOf es' = [streamOf es] ∧ callsOf es' = callsOf es ∧ t'.failure = t.failure) ∧
    ∀ es' t', ClientRun utf8 cm es' t' → streamOf es' = streamOf es → callsOf es' = callsOf es →
    t'.failure = t.failure → t'.log = t.log := by
  obtain ⟨hrun,hrest⟩ := h
  refine ⟨?_,?_,fun es' t' h' => log_eq_of_stream hrun hrest h'.1 h'.2⟩
  · rw [log_eq_answers hrun hrest,answers_eq_framed]
  · obtain ⟨es',t',hrun',hrest',hsame⟩ := exists_oneChunk hrun hrest
    exact ⟨es',t',⟨hrun',hrest'⟩,hsame⟩

/-- A literal, its line and a status, cut inside the count, both line ends, the literal and the euro sign in it; then the
end of the connection, and one call more. -/
def cutStream : List (SessionEvent UInt8 JsString) :=
  [.call,.turn,.data [123,51],.turn,.data [43,125,13],.turn,.data [10,0xE2],.turn,.turn,.data [0x82],.turn,.data [0xAC,34,13],.turn,.turn,
   .data [10,79],.turn,.turn,.data [75,13],.turn,.data [10],.turn,.close,.call,.turn]

def utf8Text (b : Bytes) : JsString := (decodeUtf8 ⟨b.toArray⟩).getD []

theorem cutStream_framed : ∃ t, ClientRun utf8Text asciiCase cutStream t ∧
    t.log = [.ok ⟨.ok,js "OK",[js "€\""]⟩,.error CONNECTION_CLOSED] ∧
    t.log = framed utf8Text asciiCase (some CONNECTION_CLOSED) 2 [123,51,43,125,13,10,0xE2,0x82,0xAC,34,13,10,79,75,13,10] := by
  have hview : (((reader utf8Text asciiCase).run CONNECTION_CLOSED .fresh cutStream).map fun t =>
      (t.log,t.failure,t.phase.isRunning)) =
      some ([.ok ⟨.ok,js "OK",[js "€\""]⟩,.error CONNECTION_CLOSED],some CONNECTION_CLOSED,false) := by decide +kernel
  obtain ⟨t,hrun,hview⟩ := Option.map_eq_some_iff.mp hview
  simp only [Prod.mk.injEq] at hview
  obtain ⟨hlog,hfailure,hphase⟩ := hview
  have hrest : t.AtRest := by
    intro c hc
    rw [hc] at hphase
    cases hphase
  have hclient : ClientRun utf8Text asciiCase cutStream t := ⟨hrun,hrest⟩
  have hframed := (framing_independent hclient).1
  rw [hfailure] at hframed
  exact ⟨t,⟨hrun,hrest⟩,hlog,hframed⟩

end Pieces
end JustMail.Webmail.ManageSieve
