import JustMail.Foundation.KeyedTable
import JustMail.Foundation.Utf16
import Mathlib.Data.Fintype.Basic
import Mathlib.Logic.Function.Basic

/-! `INSERT .. ON CONFLICT (key) DO UPDATE SET .. RETURNING ..` as PostgreSQL prepares and runs it: the types
that its placeholders get, the values that the driver binds to them, and the row that it leaves. -/
namespace JustMail.Foundation

inductive SqlType where
  | uuid | text | int4 | boolean | textArray | timestamptz
  deriving DecidableEq

def SqlType.Value : SqlType → Type
  | .uuid => Nat
  | .text => JsString
  | .int4 => Int
  | .boolean => Bool
  | .textArray => List JsString
  | .timestamptz => Int

instance : (t : SqlType) → DecidableEq t.Value
  | .uuid => inferInstanceAs (DecidableEq Nat)
  | .text => inferInstanceAs (DecidableEq JsString)
  | .int4 => inferInstanceAs (DecidableEq Int)
  | .boolean => inferInstanceAs (DecidableEq Bool)
  | .textArray => inferInstanceAs (DecidableEq (List JsString))
  | .timestamptz => inferInstanceAs (DecidableEq Int)

/-- A JavaScript value for a placeholder. -/
inductive BoundValue where
  | null
  | uuid (id : Nat)
  | string (s : JsString)
  | number (n : Int)
  | boolean (b : Bool)
  | strings (l : List JsString)
  deriving DecidableEq

inductive SqlError where
  | datatypeMismatch (target source : SqlType)
  | unmatchedTypes (left right : SqlType)
  | indeterminate (n : Nat)
  | protocolViolation
  | invalidText
  | outOfRange
  | constraintViolation
  deriving DecidableEq

/-- The text that a server with UTF-8 stores. It refuses NUL. -/
def storedText (s : JsString) : Except SqlError JsString :=
  if 0 ∈ s then .error .invalidText
  else match decodeUtf8 (encodeUtf8 s) with
    | some t => .ok t
    | none => .error .invalidText

def InInt4 (n : Int) : Prop := -2147483648 ≤ n ∧ n ≤ 2147483647

instance (n : Int) : Decidable (InInt4 n) := inferInstanceAs (Decidable (_ ∧ _))

/-- What a placeholder of a type gets. No statement binds a value to a placeholder of another kind. -/
def bindAs : (t : SqlType) → BoundValue → Except SqlError (Option t.Value)
  | _,.null => .ok none
  | .uuid,.uuid id => .ok (some id)
  | .text,.string s => (storedText s).map some
  | .int4,.number n => if InInt4 n then .ok (some n) else .error .outOfRange
  | .boolean,.boolean b => .ok (some b)
  | .textArray,.strings l => (l.mapM storedText).map some
  | _,_ => .error .invalidText

theorem storedText_eq_iff {s : JsString} : storedText s = .ok s ↔ 0 ∉ s ∧ wellFormed s = true := by
  rw [storedText,← transport_iff]
  split
  · rename_i h
    simp [h]
  · rename_i h
    simp only [h,not_false_eq_true,true_and]
    cases decodeUtf8 (encodeUtf8 s) with
    | none => simp
    | some t => simp

theorem mapM_storedText_eq_iff {l : List JsString} : l.mapM storedText = .ok l ↔ ∀ s ∈ l, storedText s = .ok s := by
  induction l with
  | nil => simp [pure,Except.pure]
  | cons s l ih =>
    rw [List.mapM_cons,List.forall_mem_cons,← ih]
    constructor
    · intro h
      cases hs : storedText s with
      | error e => simp [hs,bind,Except.bind] at h
      | ok t =>
        cases hl : l.mapM storedText with
        | error e => simp [hs,hl,bind,Except.bind] at h
        | ok l' =>
          obtain ⟨rfl,rfl⟩ : t = s ∧ l' = l := by simpa [hs,hl,bind,Except.bind,pure,Except.pure] using h
          exact ⟨rfl,rfl⟩
    · rintro ⟨hs,hl⟩
      rw [hs,hl]
      rfl

section Statements
variable {Col : Type}

structure Schema (Col : Type) where
  type : Col → SqlType
  key : Col
  /-- The default of a column for a row that comes in now. -/
  default : Int → (c : Col) → Option (type c).Value
  /-- NOT NULL, CHECK and REFERENCES. -/
  admits : (c : Col) → Option (type c).Value → Bool

/-- A literal in a statement. A quoted one has no type of its own. -/
inductive SqlLiteral where
  | quoted (s : JsString)
  | int (n : Int)
  | boolean (b : Bool)

/-- `$n`, `COALESCE($n, literal)`, `now()` and a column of the row in conflict. -/
inductive SqlExpr (Col : Type) where
  | param (n : Nat)
  | orElse (n : Nat) (fallback : SqlLiteral)
  | now
  | own (c : Col)

structure Upsert (Col : Type) where
  values : List (Col × SqlExpr Col)
  sets : List (Col × SqlExpr Col)

abbrev ParamTypes := Nat → Option SqlType

def SqlLiteral.type? : SqlLiteral → Option SqlType
  | .quoted _ => none
  | .int _ => some .int4
  | .boolean _ => some .boolean

/-- The type of COALESCE: where neither argument has one it is text. -/
def commonType : Option SqlType → Option SqlType → Except SqlError SqlType
  | none,none => .ok .text
  | some t,none => .ok t
  | none,some t => .ok t
  | some t,some u => if t = u then .ok t else .error (.unmatchedTypes t u)

/-- No cast is there to assign a value of one of these types to a column of another. -/
def assignable (target source : SqlType) : Except SqlError Unit :=
  if source = target then .ok () else .error (.datatypeMismatch target source)

/-- The types after an expression has been assigned to a column. A placeholder is given its type where it
first stands. -/
def SqlExpr.settle (s : Schema Col) (target : SqlType) (types : ParamTypes) : SqlExpr Col → Except SqlError ParamTypes
  | .param n =>
    match types n with
    | none => .ok (Function.update types n (some target))
    | some t => (assignable target t).map fun _ => types
  | .orElse n fallback => do
    let t ← commonType (types n) fallback.type?
    assignable target t
    pure (Function.update types n (some t))
  | .now => (assignable target .timestamptz).map fun _ => types
  | .own c => (assignable target (s.type c)).map fun _ => types

/-- The assignments are looked at in order. -/
def settleTypes (s : Schema Col) (types : ParamTypes) : List (Col × SqlExpr Col) → Except SqlError ParamTypes
  | [] => .ok types
  | (c,e) :: rest => (e.settle s (s.type c) types).bind fun types => settleTypes s types rest

def SqlExpr.arity : SqlExpr Col → Nat
  | .param n | .orElse n _ => n
  | .now | .own _ => 0

def Upsert.arity (u : Upsert Col) : Nat := ((u.values ++ u.sets).map (·.2.arity)).foldl max 0

/-- Every placeholder has a type, which its value can be read as. -/
def bindAll (types : ParamTypes) : Nat → List BoundValue → Except SqlError Unit
  | _,[] => .ok ()
  | n,v :: rest =>
    match types n with
    | none => .error (.indeterminate n)
    | some t => (bindAs t v).bind fun _ => bindAll types (n+1) rest

def paramValue (params : List BoundValue) (n : Nat) : BoundValue := (params[n-1]?).getD .null

def SqlLiteral.read : SqlLiteral → (t : SqlType) → Except SqlError (Option t.Value)
  | .quoted s,.text => .ok (some s)
  | .int n,.int4 => .ok (some n)
  | .boolean b,.boolean => .ok (some b)
  | _,_ => .error .invalidText

def SqlExpr.eval (s : Schema Col) (params : List BoundValue) (now : Int) (row : (c : Col) → Option (s.type c).Value) (t : SqlType) :
    SqlExpr Col → Except SqlError (Option t.Value)
  | .param n => bindAs t (paramValue params n)
  | .orElse n fallback => (bindAs t (paramValue params n)).bind fun
    | some v => .ok (some v)
    | none => fallback.read t
  | .now => match t with
    | .timestamptz => .ok (some now)
    | t => .error (.datatypeMismatch t .timestamptz)
  | .own c => if h : s.type c = t then .ok (h ▸ row c) else .error (.datatypeMismatch t (s.type c))

variable [DecidableEq Col]

/-- The expressions are evaluated over `row`, and the values put into `acc`. -/
def assignAll (s : Schema Col) (params : List BoundValue) (now : Int) (row : (c : Col) → Option (s.type c).Value) :
    List (Col × SqlExpr Col) → ((c : Col) → Option (s.type c).Value) → Except SqlError ((c : Col) → Option (s.type c).Value)
  | [],acc => .ok acc
  | (c,e) :: rest,acc => (e.eval s params now row (s.type c)).bind fun v => assignAll s params now row rest (Function.update acc c v)

/-- A row that meets the constraints. -/
structure Row (s : Schema Col) where
  get : (c : Col) → Option (s.type c).Value
  admitted : ∀ c, s.admits c (get c) = true

def Row.key {s : Schema Col} (r : Row s) : Option (s.type s.key).Value := r.get s.key

variable [Fintype Col]

def acceptRow (s : Schema Col) (values : (c : Col) → Option (s.type c).Value) : Except SqlError (Row s) :=
  if h : ∀ c, s.admits c (values c) = true then .ok ⟨values,h⟩ else .error .constraintViolation

def Upsert.execute {s : Schema Col} (u : Upsert Col) (params : List BoundValue) (now : Int) (table : Table (Row.key (s := s))) :
    Except SqlError (Table (Row.key (s := s)) × Row s) := do
  let types ← settleTypes s (fun _ => none) (u.values ++ u.sets)
  if u.arity ≠ params.length then throw .protocolViolation
  bindAll types 1 params
  let proposed ← assignAll s params now (s.default now) u.values (s.default now)
  let proposed ← acceptRow s proposed
  match table.lookup proposed.key with
  | none => pure (table.upsert proposed,proposed)
  | some old =>
    let updated ← assignAll s params now old.get u.sets old.get
    let updated ← acceptRow s updated
    pure (table.upsert updated,updated)

/-- A statement that prepares. -/
theorem Upsert.execute_eq {s : Schema Col} {u : Upsert Col} {params : List BoundValue} {types : ParamTypes}
    (htypes : settleTypes s (fun _ => none) (u.values ++ u.sets) = .ok types) (harity : u.arity = params.length) (now : Int)
    (table : Table (Row.key (s := s))) :
    u.execute params now table = (bindAll types 1 params).bind fun _ =>
      (assignAll s params now (s.default now) u.values (s.default now)).bind fun v => (acceptRow s v).bind fun proposed =>
        match table.lookup proposed.key with
        | none => .ok (table.upsert proposed,proposed)
        | some old => (assignAll s params now old.get u.sets old.get).bind fun v =>
          (acceptRow s v).bind fun updated => .ok (table.upsert updated,updated) := by
  simp only [Upsert.execute,htypes,harity,ne_eq,not_true_eq_false,if_false]
  rfl

/-- The columns of the row of a key, or those of one that comes in. -/
def previous {s : Schema Col} (table : Table (Row.key (s := s))) (now : Int) (k : Option (s.type s.key).Value) :
    (c : Col) → Option (s.type c).Value :=
  match table.lookup k with
  | some row => row.get
  | none => s.default now

end Statements

section Pushed
variable {Col : Type} {s : Schema Col} {types : ParamTypes} {start : Nat} {provided : List (Col × BoundValue)}

/-- Assignments of new placeholders, one after the other. -/
def pushed : Nat → List (Col × BoundValue) → List (Col × SqlExpr Col)
  | _,[] => []
  | n,(c,_) :: rest => (c,.param n) :: pushed (n+1) rest

theorem settleTypes_pushed (provided : List (Col × BoundValue)) (h : ∀ n, start ≤ n → types n = none) :
    settleTypes s types (pushed start provided) =
      .ok fun n => if n < start then types n else (provided[n-start]?).map fun p => s.type p.1 := by
  induction provided generalizing start types with
  | nil =>
    refine congrArg Except.ok (funext fun n => ?_)
    split
    · rfl
    · rename_i hn
      exact h n (Nat.le_of_not_lt hn)
  | cons p rest ih =>
    obtain ⟨c,v⟩ := p
    have hnext : ∀ n, start+1 ≤ n → Function.update types start (some (s.type c)) n = none := fun n hn => by
      rw [Function.update_of_ne (by omega)]
      exact h n (by omega)
    rw [pushed,settleTypes,SqlExpr.settle,h start le_rfl]
    refine (ih hnext).trans (congrArg Except.ok (funext fun n => ?_))
    rcases Nat.lt_trichotomy n start with hlt | rfl | hgt
    · rw [if_pos (by omega),if_pos hlt,Function.update_of_ne (by omega)]
    · simp
    · obtain ⟨k,rfl⟩ := Nat.exists_eq_add_of_lt hgt
      rw [if_neg (by omega),if_neg (by omega),show start+k+1-start = k+1 by omega,show start+k+1-(start+1) = k by omega]
      rfl

theorem arity_pushed (provided : List (Col × BoundValue)) (n : Nat) :
    ((pushed (n+1) provided).map (·.2.arity)).foldl max n = n + provided.length := by
  induction provided generalizing n with
  | nil => rfl
  | cons p rest ih =>
    rw [pushed,List.map_cons,List.foldl_cons,List.length_cons]
    refine (congrArg (fun m => List.foldl max m _) (Nat.max_eq_right (Nat.le_succ n))).trans ?_
    rw [ih]
    omega

/-- The values of the placeholders are read as the columns that they are for. -/
def Binds (s : Schema Col) (provided : List (Col × BoundValue)) : Prop := ∀ p ∈ provided, ∃ v, bindAs (s.type p.1) p.2 = .ok v

theorem bindAll_pushed (h : ∀ i, types (start+i) = (provided[i]?).map fun p => s.type p.1) :
    bindAll types start (provided.map Prod.snd) = .ok () ↔ Binds s provided := by
  induction provided generalizing start with
  | nil => exact ⟨fun _ p hp => absurd hp List.not_mem_nil,fun _ => rfl⟩
  | cons p rest ih =>
    have hrest := @ih (start+1) fun i => by
      rw [show start+1+i = start+(i+1) by omega,h (i+1)]
      rfl
    rw [List.map_cons,bindAll,show types start = some (s.type p.1) from h 0,Binds,List.forall_mem_cons]
    dsimp only
    cases hp : bindAs (s.type p.1) p.2 with
    | error e => simp [Except.bind]
    | ok v => exact hrest.trans ⟨fun h => ⟨⟨v,rfl⟩,h⟩,And.right⟩

variable [DecidableEq Col]

/-- Each column of the assignments gets its value. -/
theorem assignAll_pushed {params : List BoundValue} (hparams : ∀ i, paramValue params (start+i) = ((provided[i]?).map Prod.snd).getD .null)
    {f : (c : Col) → Option (s.type c).Value} (hf : ∀ p ∈ provided, bindAs (s.type p.1) p.2 = .ok (f p.1))
    (now : Int) (row acc : (c : Col) → Option (s.type c).Value) :
    assignAll s params now row (pushed start provided) acc = .ok fun c => if c ∈ provided.map Prod.fst then f c else acc c := by
  induction provided generalizing start acc with
  | nil => simp [pushed,assignAll]
  | cons p rest ih =>
    obtain ⟨c,v⟩ := p
    obtain ⟨hv,hrest⟩ := List.forall_mem_cons.mp hf
    have hnext (i : Nat) : paramValue params (start+1+i) = ((rest[i]?).map Prod.snd).getD .null := by
      rw [show start+1+i = start+(i+1) by omega,hparams (i+1)]
      rfl
    rw [pushed,assignAll,SqlExpr.eval,show paramValue params start = v from hparams 0,show bindAs (s.type c) v = .ok (f c) from hv]
    refine (ih hnext hrest (Function.update acc c (f c))).trans (congrArg Except.ok (funext fun d => ?_))
    rw [List.map_cons]
    by_cases hd : d ∈ rest.map Prod.fst
    · rw [if_pos hd,if_pos (List.mem_cons_of_mem c hd)]
    · by_cases hdc : d = c
      · subst hdc
        rw [if_neg hd,if_pos List.mem_cons_self,Function.update_self]
      · rw [if_neg hd,if_neg (by simpa [hdc] using hd),Function.update_of_ne hdc]

end Pushed
end JustMail.Foundation
