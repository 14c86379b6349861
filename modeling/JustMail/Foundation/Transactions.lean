import Mathlib.Data.Option.Basic
import Mathlib.Logic.Function.Basic
import JustMail.Foundation.Runs

/-! Programs that reach a database in statements and transactions, and runs of several of
them at the same time. A statement sees what has been committed by then and the writes of
its own transaction, which others see after the commit (read committed). Row locks are
left out: they only rule out interleavings. -/
namespace JustMail.Foundation

/-- What statements return and which rows they write, and how written rows land in the
tables. A row that violates a constraint does not land. -/
structure Database where
  State : Type
  Stmt : Type
  Result : Stmt → Type
  Write : Type
  eval : State → (q : Stmt) → Result q × List Write
  apply : State → Write → Option State

def Database.land (D : Database) (db : D.State) (ws : List D.Write) : Option D.State := ws.foldlM D.apply db

theorem Database.land_cons (D : Database) (db : D.State) (w : D.Write) (ws : List D.Write) :
    D.land db (w :: ws) = (D.apply db w).bind (D.land · ws) := rfl

/-- What every row preserves holds after they have landed. -/
theorem Database.land_invariant {D : Database} {inv : D.State → Prop} {db db' : D.State} {ws : List D.Write}
    (hrow : ∀ w ∈ ws, ∀ db db', inv db → D.apply db w = some db' → inv db') (h : D.land db ws = some db') (hdb : inv db) :
    inv db' := by
  induction ws generalizing db with
  | nil =>
    cases h
    exact hdb
  | cons w ws ih =>
    rw [Database.land_cons] at h
    obtain ⟨mid,hmid,h⟩ := Option.bind_eq_some_iff.mp h
    exact ih (fun w' hw' => hrow w' (List.mem_cons_of_mem w hw')) h (hrow w List.mem_cons_self db mid hdb hmid)

/-- What a request does from here on. -/
inductive Program (D : Database) (ε α : Type) where
  | pure (a : α)
  | throw (e : ε)
  | stmt (q : D.Stmt) (next : D.Result q → Program D ε α)
  | begin (next : Program D ε α)
  | commit (next : Program D ε α)

namespace Program
variable {D : Database} {ε α β : Type}

def bind : Program D ε α → (α → Program D ε β) → Program D ε β
  | .pure a, f => f a
  | .throw e, _ => .throw e
  | .stmt q next, f => .stmt q fun r => (next r).bind f
  | .begin next, f => .begin (next.bind f)
  | .commit next, f => .commit (next.bind f)

instance : Monad (Program D ε) where
  pure := .pure
  bind := .bind

def query (q : D.Stmt) : Program D ε (D.Result q) := .stmt q .pure

/-- An exception inside `body` rolls its writes back: nothing commits them. -/
def tx (body : Program D ε α) : Program D ε α := .begin (body.bind fun a => .commit (.pure a))

end Program

/-- A request on its way, with the writes of the transaction it has open. -/
structure Client (D : Database) (ε α : Type) where
  program : Program D ε α
  buffer : Option (List D.Write)

namespace Client
variable {D : Database} {ε α : Type} (failed : ε) (db : D.State) (c : Client D ε α)

/-- The tables as the client sees them. -/
def view : Option D.State := D.land db (c.buffer.getD [])

/-- The writes that the next instruction makes visible to others. -/
def landing : List D.Write :=
  match c.program, c.buffer with
  | .stmt q _, none => (D.eval db q).2
  | .commit _, some ws => ws
  | _, _ => []

/-- The next instruction. `failed` is what a violated constraint throws. -/
def advance : Option (D.State × Client D ε α) :=
  match c.program with
  | .pure _ | .throw _ => none
  | .begin next => some (db,⟨next,some []⟩)
  | .commit next => some ((D.land db (c.landing db)).elim (db,⟨.throw failed,none⟩) fun db' => (db',⟨next,none⟩))
  | .stmt q next =>
    match c.view db, D.land db (c.landing db) with
    | some view, some db' => some (db',⟨next (D.eval view q).1,c.buffer.map (· ++ (D.eval view q).2)⟩)
    | _, _ => some (db,⟨.throw failed,none⟩)

variable {failed db c} {db' : D.State} {c' : Client D ε α}

/-- What an instruction can do. -/
theorem advance_cases (h : c.advance failed db = some (db',c')) :
    (db' = db ∧ c' = ⟨.throw failed,none⟩) ∨
    D.land db (c.landing db) = some db' ∧
      ((∃ next, c.program = .begin next ∧ c' = ⟨next,some []⟩) ∨ (∃ next, c.program = .commit next ∧ c' = ⟨next,none⟩) ∨
      ∃ q next view, c.program = .stmt q next ∧ c.view db = some view ∧
        c' = ⟨next (D.eval view q).1,c.buffer.map (· ++ (D.eval view q).2)⟩) := by
  obtain ⟨program,buffer⟩ := c
  cases program with
  | pure a => simp [advance] at h
  | throw e => simp [advance] at h
  | begin next =>
    cases h
    exact .inr ⟨by cases buffer <;> rfl,.inl ⟨next,rfl,rfl⟩⟩
  | commit next =>
    rw [advance] at h
    dsimp only at h
    cases hland : D.land db (Client.landing db ⟨.commit next,buffer⟩) with
    | none =>
      rw [hland] at h
      cases h
      exact .inl ⟨rfl,rfl⟩
    | some landed =>
      rw [hland] at h
      cases h
      exact .inr ⟨rfl,.inr (.inl ⟨next,rfl,rfl⟩)⟩
  | stmt q next =>
    rw [advance] at h
    dsimp only at h
    split at h
    · rename_i view landed hview hland
      cases h
      exact .inr ⟨hland,.inr (.inr ⟨q,next,view,rfl,hview,rfl⟩)⟩
    · cases h
      exact .inl ⟨rfl,rfl⟩

/-- A statement outside of a transaction. -/
theorem advance_stmt {q : D.Stmt} {next : D.Result q → Program D ε α} (h : Client.advance failed db ⟨.stmt q next,none⟩ = some (db',c')) :
    (db' = db ∧ c' = ⟨.throw failed,none⟩) ∨ D.land db (D.eval db q).2 = some db' ∧ c' = ⟨next (D.eval db q).1,none⟩ := by
  rcases advance_cases h with hthrow | ⟨hland,⟨_,hp,-⟩ | ⟨_,hp,-⟩ | ⟨q',next',view,hp,hview,rfl⟩⟩
  · exact .inl hthrow
  · simp at hp
  · simp at hp
  · cases hp
    cases hview
    exact .inr ⟨hland,rfl⟩

/-- A statement of a transaction. -/
theorem advance_stmt_tx {q : D.Stmt} {next : D.Result q → Program D ε α} {ws : List D.Write}
    (h : Client.advance failed db ⟨.stmt q next,some ws⟩ = some (db',c')) :
    db' = db ∧ (c' = ⟨.throw failed,none⟩ ∨ ∃ view, c' = ⟨next (D.eval view q).1,some (ws ++ (D.eval view q).2)⟩) := by
  rcases advance_cases h with ⟨hdb,hthrow⟩ | ⟨hland,⟨_,hp,-⟩ | ⟨_,hp,-⟩ | ⟨q',next',view,hp,-,rfl⟩⟩
  · exact ⟨hdb,.inl hthrow⟩
  · simp at hp
  · simp at hp
  · cases hp
    exact ⟨(Option.some.inj hland).symm,.inr ⟨view,rfl⟩⟩

theorem advance_commit {next : Program D ε α} {ws : List D.Write} (h : Client.advance failed db ⟨.commit next,some ws⟩ = some (db',c')) :
    (db' = db ∧ c' = ⟨.throw failed,none⟩) ∨ D.land db ws = some db' ∧ c' = ⟨next,none⟩ := by
  rcases advance_cases h with hthrow | ⟨hland,⟨_,hp,-⟩ | ⟨next',hp,rfl⟩ | ⟨_,_,_,hp,-⟩⟩
  · exact .inl hthrow
  · simp at hp
  · cases hp
    exact .inr ⟨hland,rfl⟩
  · simp at hp

theorem advance_begin {next : Program D ε α} {buffer : Option (List D.Write)}
    (h : Client.advance failed db ⟨.begin next,buffer⟩ = some (db',c')) : db' = db ∧ c' = ⟨next,some []⟩ := by
  cases h
  exact ⟨rfl,rfl⟩

end Client

/-- The committed tables and the requests on their way. -/
structure Server (D : Database) (ε α : Type) where
  db : D.State
  clients : List (Client D ε α)

/-- A request comes in, or one that is on its way carries out its next instruction. -/
inductive ServerAction (ω : Type) where
  | call (op : ω)
  | exec (i : Nat)

namespace Server
variable {D : Database} {ε α ω : Type} (body : ω → Program D ε α) (failed : ε) (s : Server D ε α)

def step : ServerAction ω → Option (Server D ε α)
  | .call op => some ⟨s.db,s.clients ++ [⟨body op,none⟩]⟩
  | .exec i => (s.clients[i]?.bind (·.advance failed s.db)).map fun (db,c) => ⟨db,s.clients.set i c⟩

variable {body failed s} {t : Server D ε α} {a : ServerAction ω}

theorem step_cases (h : s.step body failed a = some t) :
    (∃ op, a = .call op ∧ t = ⟨s.db,s.clients ++ [⟨body op,none⟩]⟩) ∨
    ∃ i c db c', a = .exec i ∧ s.clients[i]? = some c ∧ c.advance failed s.db = some (db,c') ∧ t = ⟨db,s.clients.set i c'⟩ := by
  cases a with
  | call op => exact .inl ⟨op,rfl,(Option.some.inj h).symm⟩
  | exec i =>
    obtain ⟨⟨db,c'⟩,hadvance,rfl⟩ := Option.map_eq_some_iff.mp h
    obtain ⟨c,hc,hadvance⟩ := Option.bind_eq_some_iff.mp hadvance
    exact .inr ⟨i,c,db,c',rfl,hc,hadvance,rfl⟩

end Server
/-! Advisory locks of a database server. A key is held by one session at most, which may take it
again while it holds it and gives it back as often as it has taken it. -/

/-- Who holds a key, and how often it has been taken again. -/
structure Locks (κ σ : Type) where
  holder : κ → Option (σ × Nat)

namespace Locks
variable {κ σ : Type} [DecidableEq κ] [DecidableEq σ]

def free : Locks κ σ := ⟨fun _ => none⟩

variable (l : Locks κ σ) (s : σ) (k : κ)

def set (held : Option (σ × Nat)) : Locks κ σ := ⟨Function.update l.holder k held⟩

/-- `pg_try_advisory_lock`; `none` where another session holds the key. The locks of a transaction
are taken in the same way, by a session that waits until it can. -/
def tryLock : Option (Locks κ σ) :=
  match l.holder k with
  | none => some (l.set k (some (s,0)))
  | some (s',n) => if s' = s then some (l.set k (some (s,n + 1))) else none

/-- `pg_advisory_unlock`. -/
def unlock : Locks κ σ :=
  match l.holder k with
  | some (s',0) => if s' = s then l.set k none else l
  | some (s',n + 1) => if s' = s then l.set k (some (s,n)) else l
  | none => l

/-- The end of a session, or of a transaction whose locks are all that it holds. -/
def releaseAll : Locks κ σ := ⟨fun k => (l.holder k).filter (·.1 != s)⟩

variable {l s k} {l' : Locks κ σ} {k' : κ}

/-- A session that does not hold the key gets it if nobody does. -/
theorem tryLock_isSome (h : ∀ n, l.holder k ≠ some (s,n)) : (l.tryLock s k).isSome = true ↔ l.holder k = none := by
  rw [tryLock]
  cases hheld : l.holder k with
  | none => simp
  | some held =>
    obtain ⟨s',n⟩ := held
    have hne : s' ≠ s := fun heq => h n (heq ▸ hheld)
    simp [hne]

theorem holder_tryLock (hother : ∀ n, l.holder k ≠ some (s,n)) (h : l.tryLock s k = some l') :
    l.holder k = none ∧ ∀ k', l'.holder k' = if k' = k then some (s,0) else l.holder k' := by
  have hfree : l.holder k = none := (tryLock_isSome hother).mp (by rw [h]; rfl)
  rw [tryLock,hfree] at h
  cases h
  exact ⟨hfree,fun k' => Function.update_apply _ _ _ _⟩

theorem holder_unlock (h : l.holder k = some (s,0)) (k' : κ) : (l.unlock s k).holder k' = if k' = k then none else l.holder k' := by
  rw [unlock,h]
  simp [set,Function.update_apply]

omit [DecidableEq κ] in
/-- The end of a session changes nothing for a key that it does not hold. -/
theorem holder_releaseAll (h : ∀ n, l.holder k ≠ some (s,n)) : (l.releaseAll s).holder k = l.holder k := by
  rw [releaseAll]
  cases hheld : l.holder k with
  | none => simp [hheld]
  | some held =>
    obtain ⟨s',n⟩ := held
    have hne : s' ≠ s := fun heq => h n (heq ▸ hheld)
    simp [hheld,hne]

omit [DecidableEq κ] in
theorem releaseAll_held {n : Nat} (h : l.holder k = some (s,n)) : (l.releaseAll s).holder k = none := by
  simp [releaseAll,h]

end Locks
end JustMail.Foundation
