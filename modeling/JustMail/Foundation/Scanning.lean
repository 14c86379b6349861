import JustMail.Foundation.CodeUnits

/-! Reading a list from its front. A scanner keeps every unit of the text, in what it took or in
what it left. Before a stop a text is settled: either what follows the stop has no part in the
reading, or the stop is read as well. -/
namespace JustMail.Foundation

section Consumers
variable {σ α : Type}

/-- What one round makes of the first element and of those behind it. -/
structure Consumer (σ α : Type) where
  step : σ → List σ → Option α × List σ
  shrinks : ∀ c s, (step c s).2.length ≤ s.length

namespace Consumer
variable (consumer : Consumer σ α)

def run : Nat → List σ → List α
  | 0, _ => []
  | _+1, [] => []
  | n+1, c :: s => (consumer.step c s).1.toList ++ run n (consumer.step c s).2

/-- Round after round up to the end. -/
def all (s : List σ) : List α := consumer.run s.length s

theorem run_of_le {n : Nat} {s : List σ} (h : s.length ≤ n) : consumer.run n s = consumer.all s := by
  induction n using Nat.strongRecOn generalizing s with
  | ind n ih =>
    cases s with
    | nil => cases n <;> rfl
    | cons c s =>
      cases n with
      | zero => simp at h
      | succ n =>
        rw [List.length_cons] at h
        have hshrinks := consumer.shrinks c s
        have hrest : consumer.run s.length (consumer.step c s).2 = consumer.all (consumer.step c s).2 :=
          ih s.length (by omega) hshrinks
        rw [all,List.length_cons,run,run,ih n (by omega) (by omega),hrest]

@[simp] theorem all_nil : consumer.all [] = [] := rfl

theorem all_cons (c : σ) (s : List σ) :
    consumer.all (c :: s) = (consumer.step c s).1.toList ++ consumer.all (consumer.step c s).2 := by
  rw [all,List.length_cons,run,run_of_le consumer (consumer.shrinks c s)]

theorem all_skip {c : σ} {s : List σ} (h : consumer.step c s = (none,s)) : consumer.all (c :: s) = consumer.all s := by
  rw [all_cons,h]
  rfl

end Consumer
end Consumers

/-- What was read, in which units, and what is left. -/
structure Scanned (α : Type) where
  value : α
  text : JsString
  rest : JsString
  deriving DecidableEq

structure Scanner (α : Type) where
  run : JsString → Scanned α
  lossless : ∀ s, (run s).text ++ (run s).rest = s

namespace Scanner
variable {α β : Type}

def done (a : α) : Scanner α where
  run s := ⟨a,[],s⟩
  lossless _ := rfl

def andThen (f : Scanner α) (g : α → Scanner β) : Scanner β where
  run s :=
    let first := f.run s
    let second := (g first.value).run first.rest
    ⟨second.value,first.text ++ second.text,second.rest⟩
  lossless s := by
    dsimp only
    rw [List.append_assoc,(g _).lossless,f.lossless]

instance : Monad Scanner where
  pure := done
  bind := andThen

/-- Takes nothing, and tells of what is there. -/
def look (p : JsString → α) : Scanner α where
  run s := ⟨p s,[],s⟩
  lossless _ := rfl

def take (n : Nat) : Scanner JsString where
  run s := ⟨s.take n,s.take n,s.drop n⟩
  lossless s := List.take_append_drop n s

def spanWhile (p : CodeUnit → Bool) : Scanner JsString where
  run s := ⟨s.takeWhile p,s.takeWhile p,s.dropWhile p⟩
  lossless _ := List.takeWhile_append_dropWhile

/-- Units of a class and escapes. Behind a backslash `escape` tells how many units belong to it;
`skip` of them are left to take. -/
def takeEscaped (backslash : CodeUnit) (p : CodeUnit → Bool) (escape : JsString → Option Nat) : Nat → JsString → JsString × JsString
  | _, [] => ([],[])
  | skip+1, c :: s =>
    let next := takeEscaped backslash p escape skip s
    (c :: next.1,next.2)
  | 0, c :: s =>
    if c = backslash then
      match escape s with
      | some n =>
        let next := takeEscaped backslash p escape n s
        (c :: next.1,next.2)
      | none => ([],c :: s)
    else if p c then
      let next := takeEscaped backslash p escape 0 s
      (c :: next.1,next.2)
    else ([],c :: s)

theorem takeEscaped_append (backslash : CodeUnit) (p : CodeUnit → Bool) (escape : JsString → Option Nat) (skip : Nat) (s : JsString) :
    (takeEscaped backslash p escape skip s).1 ++ (takeEscaped backslash p escape skip s).2 = s := by
  induction s generalizing skip with
  | nil => cases skip <;> rfl
  | cons c s ih =>
    cases skip with
    | succ skip => exact congrArg (c :: ·) (ih skip)
    | zero =>
      rw [takeEscaped]
      split
      · cases escape s with
        | some n => exact congrArg (c :: ·) (ih n)
        | none => rfl
      · split
        · exact congrArg (c :: ·) (ih 0)
        · rfl

def spanEscaped (backslash : CodeUnit) (p : CodeUnit → Bool) (escape : JsString → Option Nat) (skip : Nat) : Scanner JsString where
  run s :=
    let taken := takeEscaped backslash p escape skip s
    ⟨taken.1,taken.1,taken.2⟩
  lossless s := takeEscaped_append backslash p escape skip s

section Running
variable (s : JsString)

@[simp] theorem run_pure (a : α) : (pure a : Scanner α).run s = ⟨a,[],s⟩ := rfl

@[simp] theorem run_bind (f : Scanner α) (g : α → Scanner β) : (f >>= g).run s =
    ⟨((g (f.run s).value).run (f.run s).rest).value,(f.run s).text ++ ((g (f.run s).value).run (f.run s).rest).text,
      ((g (f.run s).value).run (f.run s).rest).rest⟩ := rfl

@[simp] theorem run_look (p : JsString → α) : (look p).run s = ⟨p s,[],s⟩ := rfl

@[simp] theorem run_take (n : Nat) : (take n).run s = ⟨s.take n,s.take n,s.drop n⟩ := rfl

@[simp] theorem run_spanWhile (p : CodeUnit → Bool) : (spanWhile p).run s = ⟨s.takeWhile p,s.takeWhile p,s.dropWhile p⟩ := rfl

theorem run_ask_yes {p : JsString → Bool} {f f' : Scanner α} {s : JsString} (h : p s = true) :
    (look p >>= fun b => if b = true then f else f').run s = f.run s := by
  rw [run_bind,run_look]
  dsimp only
  rw [if_pos h,List.nil_append]

theorem run_ask_no {p : JsString → Bool} {f f' : Scanner α} {s : JsString} (h : p s = false) :
    (look p >>= fun b => if b = true then f else f').run s = f'.run s := by
  rw [run_bind,run_look]
  dsimp only
  rw [if_neg (by simp [h]),List.nil_append]

theorem length_rest_le (f : Scanner α) : (f.run s).rest.length ≤ s.length := by
  have hlength := congrArg List.length (f.lossless s)
  rw [List.length_append] at hlength
  omega

theorem mem_of_mem_rest {f : Scanner α} {s : JsString} {c : CodeUnit} (h : c ∈ (f.run s).rest) : c ∈ s := by
  rw [← f.lossless s]
  exact List.mem_append_right _ h

theorem takeEscaped_plain {backslash : CodeUnit} {p : CodeUnit → Bool} {e : JsString → Option Nat}
    {a : JsString} (h : backslash ∉ a) (x : JsString) :
    takeEscaped backslash p e 0 (a ++ x) = if a.all p then
      (a ++ (takeEscaped backslash p e 0 x).1,(takeEscaped backslash p e 0 x).2)
      else (a.takeWhile p,a.dropWhile p ++ x) := by
  induction a with
  | nil => rfl
  | cons c a ih =>
    rw [List.mem_cons,not_or] at h
    rw [List.cons_append,takeEscaped,if_neg (Ne.symm h.1)]
    cases hc : p c with
    | false => simp [hc]
    | true =>
      rw [if_pos rfl]
      dsimp only
      rw [ih h.2]
      by_cases ha : a.all p = true
      · rw [if_pos ha,if_pos (by rw [List.all_cons,hc,ha]; rfl)]
        rfl
      · rw [if_neg ha,if_neg (by rw [List.all_cons,hc]; exact ha),List.takeWhile_cons_of_pos hc,List.dropWhile_cons_of_pos hc]

end Running

section Settling
variable {z : CodeUnit} {f : Scanner α} {g : α → Scanner β} {a : JsString}

/-- A text is read before the stop as it is read by itself. -/
def Within (z : CodeUnit) (f : Scanner α) (a : JsString) : Prop :=
  ∀ r, f.run (a ++ z :: r) = ⟨(f.run a).value,(f.run a).text,(f.run a).rest ++ z :: r⟩

/-- The stop is read with the text. -/
def Beyond (z : CodeUnit) (f : Scanner α) (a : JsString) : Prop := ∀ r, a.length < (f.run (a ++ z :: r)).text.length

def Settled (z : CodeUnit) (f : Scanner α) (a : JsString) : Prop := f.Within z a ∨ f.Beyond z a

theorem within_pure (v : α) : (pure v : Scanner α).Within z a := fun _ => rfl

theorem within_look {p : JsString → α} (h : ∀ r, p (a ++ z :: r) = p a) : (look p).Within z a := by
  intro r
  rw [run_look,run_look,h]

theorem within_take {n : Nat} (h : n ≤ a.length) : (take n).Within z a := by
  intro r
  rw [run_take,run_take,List.take_append_of_le_length h,List.drop_append_of_le_length h]

theorem within_spanWhile {p : CodeUnit → Bool} (hz : p z = false) : (spanWhile p).Within z a := by
  intro r
  have hspan : (a ++ z :: r).takeWhile p = a.takeWhile p ∧ (a ++ z :: r).dropWhile p = a.dropWhile p ++ z :: r := by
    induction a with
    | nil => simp [hz]
    | cons c a ih =>
      cases hc : p c with
      | true => simpa [hc] using ih
      | false => simp [hc]
  rw [run_spanWhile,run_spanWhile,hspan.1,hspan.2]

theorem Within.bind (hf : f.Within z a) (hg : (g (f.run a).value).Within z (f.run a).rest) : (f >>= g).Within z a := by
  intro r
  rw [run_bind,run_bind,hf r]
  dsimp only
  rw [hg r]

theorem Beyond.bind (hf : f.Beyond z a) : (f >>= g).Beyond z a := by
  intro r
  rw [run_bind]
  dsimp only
  rw [List.length_append]
  exact Nat.lt_add_right _ (hf r)

theorem Within.bind_beyond (hf : f.Within z a) (hg : (g (f.run a).value).Beyond z (f.run a).rest) : (f >>= g).Beyond z a := by
  intro r
  have hlength := congrArg List.length (f.lossless a)
  have hbeyond := hg r
  rw [run_bind,hf r]
  dsimp only
  rw [List.length_append] at hlength ⊢
  omega

theorem Within.bind_settled (hf : f.Within z a) (hg : (g (f.run a).value).Settled z (f.run a).rest) : (f >>= g).Settled z a :=
  hg.imp hf.bind hf.bind_beyond

/-- What is told of a text takes nothing of it. -/
theorem beyond_look {p : JsString → α} (h : ∀ v, (g v).Beyond z a) : (look p >>= g).Beyond z a := by
  intro r
  rw [run_bind,run_look]
  exact h _ r

section Asking
variable {p : JsString → Bool} {f' : Scanner α} (hp : ∀ r, p (a ++ z :: r) = p a)
include hp

/-- The stop does not change the answer about what is there. -/
theorem settled_ask (hyes : p a = true → f.Settled z a) (hno : p a = false → f'.Settled z a) :
    (look p >>= fun b => if b = true then f else f').Settled z a := by
  apply (within_look hp).bind_settled
  rw [run_look]
  dsimp only
  cases hanswer : p a with
  | true => exact hyes hanswer
  | false => exact hno hanswer

theorem within_ask (hyes : p a = true → f.Within z a) (hno : p a = false → f'.Within z a) :
    (look p >>= fun b => if b = true then f else f').Within z a := by
  apply (within_look hp).bind
  rw [run_look]
  dsimp only
  cases hanswer : p a with
  | true => exact hyes hanswer
  | false => exact hno hanswer

end Asking

section Escapes
variable {backslash : CodeUnit} {p : CodeUnit → Bool} {escape : JsString → Option Nat} (h : backslash ∉ a)
include h

theorem run_spanEscaped : (spanEscaped backslash p escape 0).run a = ⟨a.takeWhile p,a.takeWhile p,a.dropWhile p⟩ := by
  have htaken : takeEscaped backslash p escape 0 a = (a.takeWhile p,a.dropWhile p) := by
    have happend := takeEscaped_plain (p := p) (e := escape) h []
    rw [List.append_nil,List.append_nil] at happend
    rw [happend]
    split
    · rename_i hall
      rw [List.all_eq_true] at hall
      rw [takeEscaped,List.append_nil,List.takeWhile_eq_self_iff.mpr hall,List.dropWhile_eq_nil_iff.mpr hall]
    · rfl
  simp only [spanEscaped,htaken]

theorem within_spanEscaped (hz : z ≠ backslash) (hstop : p z = false ∨ a.all p = false) :
    (spanEscaped backslash p escape 0).Within z a := by
  intro r
  have htaken : takeEscaped backslash p escape 0 (a ++ z :: r) = (a.takeWhile p,a.dropWhile p ++ z :: r) := by
    rw [takeEscaped_plain h]
    split
    · rename_i hall
      have hpz : p z = false := hstop.resolve_right (by simp [hall])
      rw [takeEscaped,if_neg hz,if_neg (by simp [hpz]),List.append_nil,List.takeWhile_eq_self_iff.mpr (List.all_eq_true.mp hall),
        List.dropWhile_eq_nil_iff.mpr (List.all_eq_true.mp hall)]
      rfl
    · rfl
  rw [run_spanEscaped h]
  simp only [spanEscaped,htaken]

theorem beyond_spanEscaped (hz : z ≠ backslash) (hpz : p z = true) (hall : a.all p = true) :
    (spanEscaped backslash p escape 0).Beyond z a := by
  intro r
  simp only [spanEscaped]
  rw [takeEscaped_plain h,if_pos hall,takeEscaped,if_neg hz,if_pos hpz]
  simp

/-- A run of units ends before the stop, or takes the stop with it. -/
theorem spanEscaped_bind_settled {g : JsString → Scanner β} (hz : z ≠ backslash)
    (hg : a.dropWhile p ≠ [] → (g (a.takeWhile p)).Settled z (a.dropWhile p)) (hpz : p z = true) :
    (spanEscaped backslash p escape 0 >>= g).Settled z a := by
  cases hall : a.all p with
  | true => exact .inr (beyond_spanEscaped h hz hpz hall).bind
  | false =>
    have hrest : a.dropWhile p ≠ [] := by
      rw [Ne,List.dropWhile_eq_nil_iff,← List.all_eq_true,hall]
      exact Bool.false_ne_true
    have hwithin : (spanEscaped backslash p escape 0).Within z a := within_spanEscaped h hz (.inr hall)
    apply hwithin.bind_settled
    rw [run_spanEscaped h]
    exact hg hrest

end Escapes

end Settling
end Scanner
end JustMail.Foundation
