import JustMail.Foundation.Transactions

/-! Requests one after the other: what a program does when no other one runs, and the rules
by which facts about its statements become facts about the tables it leaves. -/
namespace JustMail.Foundation
namespace Program
variable {D : Database} {ε α β : Type}

/-- The outcome of a program that runs alone: what it throws and the tables it leaves, or
what it returns. `saved` is what the open transaction falls back to, `db` what it sees. -/
def run (failed : ε) : Program D ε α → Option D.State → D.State → Except (ε × D.State) (α × Option D.State × D.State)
  | .pure a, saved, db => .ok (a,saved,db)
  | .throw e, saved, db => .error (e,saved.getD db)
  | .stmt q next, saved, db =>
    match D.land db (D.eval db q).2 with
    | none => .error (failed,saved.getD db)
    | some db' => (next (D.eval db q).1).run failed saved db'
  | .begin next, _, db => next.run failed (some db) db
  | .commit next, _, db => next.run failed none db

/-- The tables that an outcome leaves. -/
def tablesLeft {σ : Type} : Except (ε × σ) (α × Option σ × σ) → σ
  | .ok (_,saved,db) => saved.getD db
  | .error (_,db) => db

def after (failed : ε) (p : Program D ε α) (db : D.State) : D.State := tablesLeft (p.run failed none db)

theorem bind_assoc {γ : Type} (p : Program D ε α) (f : α → Program D ε β) (g : β → Program D ε γ) :
    p >>= f >>= g = p >>= fun a => f a >>= g := by
  change (p.bind f).bind g = p.bind fun a => (f a).bind g
  induction p with
  | pure a => rfl
  | throw e => rfl
  | stmt q next ih =>
    rw [bind,bind,bind]
    congr 1
    funext r
    exact ih r
  | begin next ih => rw [bind,bind,bind,ih]
  | commit next ih => rw [bind,bind,bind,ih]

theorem run_bind (failed : ε) (p : Program D ε α) (f : α → Program D ε β) (saved : Option D.State) (db : D.State) :
    (p >>= f).run failed saved db = (p.run failed saved db).bind fun r => (f r.1).run failed r.2.1 r.2.2 := by
  change (p.bind f).run failed saved db = _
  induction p generalizing saved db with
  | pure a => rfl
  | throw e => rfl
  | stmt q next ih =>
    rw [bind,run,run]
    cases D.land db (D.eval db q).2 with
    | none => rfl
    | some mid => exact ih _ saved mid
  | begin next ih => exact ih (some db) db
  | commit next ih => exact ih none db

/-- What is returned makes no difference to the tables. -/
theorem after_bind_pure (failed : ε) (p : Program D ε α) (b : β) (db : D.State) :
    (p >>= fun _ => pure b).after failed db = p.after failed db := by
  rw [after,after,run_bind]
  cases p.run failed none db with
  | error e => rfl
  | ok r => rfl

section Statements
variable {S T : D.Stmt → Prop} {p p' : Program D ε α} {f : α → Program D ε β}

/-- The statements of the program are among `S`, and no transaction begins or ends in it. -/
def Only (S : D.Stmt → Prop) : Program D ε α → Prop
  | .pure _ | .throw _ => True
  | .stmt q next => S q ∧ ∀ r, (next r).Only S
  | .begin _ | .commit _ => False

/-- The statements of the program are among `S`, in or out of transactions. -/
def Within (S : D.Stmt → Prop) : Program D ε α → Prop
  | .pure _ | .throw _ => True
  | .stmt q next => S q ∧ ∀ r, (next r).Within S
  | .begin next | .commit next => next.Within S

theorem only_query {q : D.Stmt} (h : S q) : (query q : Program D ε (D.Result q)).Only S := ⟨h,fun _ => trivial⟩

theorem within_query {q : D.Stmt} (h : S q) : (query q : Program D ε (D.Result q)).Within S := ⟨h,fun _ => trivial⟩

theorem Only.bind (hp : p.Only S) (hf : ∀ a, (f a).Only S) : (p >>= f).Only S := by
  induction p with
  | pure a => exact hf a
  | throw e => trivial
  | stmt q next ih => exact ⟨hp.1,fun r => ih r (hp.2 r)⟩
  | begin next ih => exact hp.elim
  | commit next ih => exact hp.elim

theorem Within.bind (hp : p.Within S) (hf : ∀ a, (f a).Within S) : (p >>= f).Within S := by
  induction p with
  | pure a => exact hf a
  | throw e => trivial
  | stmt q next ih => exact ⟨hp.1,fun r => ih r (hp.2 r)⟩
  | begin next ih => exact ih hp
  | commit next ih => exact ih hp

theorem Only.ite {c : Prop} [Decidable c] (hp : p.Only S) (hp' : p'.Only S) : (if c then p else p').Only S := by
  split
  · exact hp
  · exact hp'

theorem Within.ite {c : Prop} [Decidable c] (hp : p.Within S) (hp' : p'.Within S) : (if c then p else p').Within S := by
  split
  · exact hp
  · exact hp'

theorem Only.within (hp : p.Only S) : p.Within S := by
  induction p with
  | pure a => trivial
  | throw e => trivial
  | stmt q next ih => exact ⟨hp.1,fun r => ih r (hp.2 r)⟩
  | begin next ih => exact hp.elim
  | commit next ih => exact hp.elim

theorem Within.mono (hp : p.Within S) (h : ∀ q, S q → T q) : p.Within T := by
  induction p with
  | pure a => trivial
  | throw e => trivial
  | stmt q next ih => exact ⟨h q hp.1,fun r => ih r (hp.2 r)⟩
  | begin next ih => exact ih hp
  | commit next ih => exact ih hp

theorem Only.tx (hp : p.Only S) : p.tx.Within S := hp.within.bind fun _ => trivial

/-- Wherever `inv` holds, each statement on the way leaves tables where it holds, and what is
returned satisfies `R`. -/
def Keeps (inv : D.State → Prop) (R : α → Prop) : Program D ε α → Prop
  | .pure a => R a
  | .throw _ => True
  | .stmt q next => ∀ db db', inv db → D.land db (D.eval db q).2 = some db' → inv db' ∧ (next (D.eval db q).1).Keeps inv R
  | .begin next | .commit next => next.Keeps inv R

variable {inv : D.State → Prop} {R : α → Prop} {R' : β → Prop} {p p' : Program D ε α} {f : α → Program D ε β} {failed : ε} {db : D.State}

theorem Keeps.bind (hp : p.Keeps inv R) (hf : ∀ a, R a → (f a).Keeps inv R') : (p >>= f).Keeps inv R' := by
  induction p with
  | pure a => exact hf a hp
  | throw e => trivial
  | stmt q next ih => exact fun db db' hdb hland => ⟨(hp db db' hdb hland).1,ih _ (hp db db' hdb hland).2⟩
  | begin next ih => exact ih hp
  | commit next ih => exact ih hp

theorem Keeps.tx (hp : p.Keeps inv R) : p.tx.Keeps inv R := hp.bind fun _ ha => ha

theorem Keeps.ite {c : Prop} [Decidable c] (hp : c → p.Keeps inv R) (hp' : ¬c → p'.Keeps inv R) : (if c then p else p').Keeps inv R := by
  split
  · rename_i hc
    exact hp hc
  · rename_i hc
    exact hp' hc

theorem Keeps.query {q : D.Stmt} {R : D.Result q → Prop}
    (hq : ∀ db db', inv db → D.land db (D.eval db q).2 = some db' → inv db' ∧ R (D.eval db q).1) :
    (Program.query q : Program D ε (D.Result q)).Keeps inv R := hq

theorem Within.keeps {S : D.Stmt → Prop} (hp : p.Within S)
    (hS : ∀ q, S q → ∀ db db', inv db → D.land db (D.eval db q).2 = some db' → inv db') : p.Keeps inv fun _ => True := by
  induction p with
  | pure a => trivial
  | throw e => trivial
  | stmt q next ih => exact fun db db' hdb hland => ⟨hS q hp.1 db db' hdb hland,ih _ (hp.2 _)⟩
  | begin next ih => exact ih hp
  | commit next ih => exact ih hp

/-- What the statements keep holds of the tables that are left, also by a failed request. -/
theorem Keeps.after (hp : p.Keeps inv R) (hdb : inv db) : inv (p.after failed db) := by
  have hrun : ∀ saved db, inv db → (∀ s ∈ saved, inv s) → inv (tablesLeft (p.run failed saved db)) := by
    have hgetD : ∀ (saved : Option D.State) db, inv db → (∀ s ∈ saved, inv s) → inv (saved.getD db) := by
      intro saved db hdb hsaved
      cases saved with
      | none => exact hdb
      | some s => exact hsaved s rfl
    induction p with
    | pure a => exact hgetD
    | throw e => exact hgetD
    | stmt q next ih =>
      intro saved db hdb hsaved
      rw [run]
      cases hland : D.land db (D.eval db q).2 with
      | none => exact hgetD saved db hdb hsaved
      | some db' =>
        obtain ⟨hdb',hnext⟩ := hp db db' hdb hland
        exact ih _ hnext saved db' hdb' hsaved
    | begin next ih => exact fun saved db hdb _ => ih hp (some db) db hdb fun s hs => Option.some.inj hs ▸ hdb
    | commit next ih => exact fun saved db hdb _ => ih hp none db hdb fun s hs => absurd hs (by simp)
  exact hrun none db hdb fun s hs => absurd hs (by simp)

/-- The program returns `a`, and sees `db'` then. -/
def Returns : Program D ε α → D.State → α → D.State → Prop
  | .pure a, db, b, db' => a = b ∧ db = db'
  | .throw _, _, _, _ => False
  | .stmt q next, db, b, db' => ∃ mid, D.land db (D.eval db q).2 = some mid ∧ (next (D.eval db q).1).Returns mid b db'
  | .begin next, db, b, db' | .commit next, db, b, db' => next.Returns db b db'

variable {p : Program D ε α} {f : α → Program D ε β} {failed : ε} {db db' : D.State} {a : α} {b : β}

theorem returns_bind : (p >>= f).Returns db b db' ↔ ∃ a mid, p.Returns db a mid ∧ (f a).Returns mid b db' := by
  change (p.bind f).Returns db b db' ↔ _
  induction p generalizing db with
  | pure a =>
    constructor
    · exact fun h => ⟨a,db,⟨rfl,rfl⟩,h⟩
    · rintro ⟨_,_,⟨rfl,rfl⟩,h⟩
      exact h
  | throw e =>
    constructor
    · exact fun h => h.elim
    · rintro ⟨_,_,h,-⟩
      exact h.elim
  | stmt q next ih =>
    constructor
    · rintro ⟨mid,hland,h⟩
      obtain ⟨a,mid',ha,hb⟩ := (ih _).mp h
      exact ⟨a,mid',⟨mid,hland,ha⟩,hb⟩
    · rintro ⟨a,mid',⟨mid,hland,ha⟩,hb⟩
      exact ⟨mid,hland,(ih _).mpr ⟨a,mid',ha,hb⟩⟩
  | begin next ih => exact ih
  | commit next ih => exact ih

/-- What every row preserves holds where a program returns. -/
theorem Returns.invariant {inv : D.State → Prop} (hrow : ∀ w db db', inv db → D.apply db w = some db' → inv db')
    (h : p.Returns db a db') (hdb : inv db) : inv db' := by
  induction p generalizing db with
  | pure _ =>
    obtain ⟨-,rfl⟩ := h
    exact hdb
  | throw _ => exact h.elim
  | stmt q next ih =>
    obtain ⟨mid,hland,h⟩ := h
    exact ih _ h (D.land_invariant (fun w _ => hrow w) hland hdb)
  | begin next ih => exact ih h hdb
  | commit next ih => exact ih h hdb

theorem returns_query {q : D.Stmt} {r : D.Result q} :
    (query q : Program D ε (D.Result q)).Returns db r db' ↔ D.land db (D.eval db q).2 = some db' ∧ (D.eval db q).1 = r := by
  constructor
  · rintro ⟨mid,hland,hr,rfl⟩
    exact ⟨hland,hr⟩
  · rintro ⟨hland,hr⟩
    exact ⟨db',hland,hr,rfl⟩

theorem returns_ite {c : Prop} [Decidable c] {p' : Program D ε α} (h : (if c then p else p').Returns db a db') :
    c ∧ p.Returns db a db' ∨ ¬c ∧ p'.Returns db a db' := by
  split at h
  · exact .inl ⟨‹_›,h⟩
  · exact .inr ⟨‹_›,h⟩

theorem returns_tx : p.tx.Returns db a db' ↔ p.Returns db a db' := by
  change (p >>= fun a => (.commit (.pure a) : Program D ε α)).Returns db a db' ↔ _
  rw [returns_bind]
  constructor
  · rintro ⟨_,_,h,rfl,rfl⟩
    exact h
  · exact fun h => ⟨a,db',h,rfl,rfl⟩

theorem returns_of_run {saved saved' : Option D.State} (h : p.run failed saved db = .ok (a,saved',db')) : p.Returns db a db' := by
  induction p generalizing saved db with
  | pure a =>
    obtain ⟨rfl,-,rfl⟩ := Prod.mk.injEq .. ▸ Except.ok.inj h
    exact ⟨rfl,rfl⟩
  | throw e => exact nomatch h
  | stmt q next ih =>
    rw [run] at h
    cases hland : D.land db (D.eval db q).2 with
    | none => simp [hland] at h
    | some mid =>
      rw [hland] at h
      exact ⟨mid,hland,ih _ h⟩
  | begin next ih => exact ih h
  | commit next ih => exact ih h

/-- Inside a transaction a program returns, or the transaction falls back. -/
theorem Only.run_cases (hp : p.Only S) (failed : ε) (start db : D.State) :
    (∃ a db', p.Returns db a db' ∧ p.run failed (some start) db = .ok (a,some start,db')) ∨
    ∃ e, p.run failed (some start) db = .error (e,start) := by
  induction p generalizing db with
  | pure a => exact .inl ⟨a,db,⟨rfl,rfl⟩,rfl⟩
  | throw e => exact .inr ⟨e,rfl⟩
  | stmt q next ih =>
    rw [run]
    cases hland : D.land db (D.eval db q).2 with
    | none => exact .inr ⟨failed,rfl⟩
    | some mid =>
      rcases ih _ (hp.2 _) mid with ⟨a,db',hreturns,hrun⟩ | ⟨e,hrun⟩
      · exact .inl ⟨a,db',⟨mid,hland,hreturns⟩,hrun⟩
      · exact .inr ⟨e,hrun⟩
  | begin next ih => exact hp.elim
  | commit next ih => exact hp.elim

/-- What a program without transactions returns, it returns inside of one. -/
theorem Only.run_of_returns (hp : p.Only S) (h : p.Returns db a db') (failed : ε) (saved : Option D.State) :
    p.run failed saved db = .ok (a,saved,db') := by
  induction p generalizing db with
  | pure a' =>
    obtain ⟨rfl,rfl⟩ := h
    rfl
  | throw e => exact h.elim
  | stmt q next ih =>
    obtain ⟨mid,hland,hnext⟩ := h
    rw [run,hland]
    exact ih _ (hp.2 _) hnext
  | begin next ih => exact hp.elim
  | commit next ih => exact hp.elim

theorem run_tx (hp : p.Only S) (failed : ε) (db : D.State) :
    (∃ a db', p.Returns db a db' ∧ p.tx.run failed none db = .ok (a,none,db')) ∨ ∃ e, p.tx.run failed none db = .error (e,db) := by
  have htx : p.tx.run failed none db = (p.run failed (some db) db).bind fun r => .ok (r.1,none,r.2.2) :=
    run_bind failed p (fun a => .commit (.pure a)) (some db) db
  rw [htx]
  rcases hp.run_cases failed db db with ⟨a,db',hreturns,hrun⟩ | ⟨e,hrun⟩
  · exact .inl ⟨a,db',hreturns,by rw [hrun]; rfl⟩
  · exact .inr ⟨e,by rw [hrun]; rfl⟩

/-- A transaction is carried out as a whole, or leaves the tables as they are. -/
theorem after_tx (hp : p.Only S) (failed : ε) (db : D.State) :
    (∃ a db', p.Returns db a db' ∧ p.tx.after failed db = db') ∨ p.tx.after failed db = db := by
  rw [after]
  rcases run_tx hp failed db with ⟨a,db',hreturns,hrun⟩ | ⟨e,hrun⟩
  · exact .inl ⟨a,db',hreturns,by rw [hrun]; rfl⟩
  · exact .inr (by rw [hrun]; rfl)

theorem after_tx_bind (hp : p.Only S) (f : α → Program D ε β) (failed : ε) (db : D.State) :
    (∃ a db', p.Returns db a db' ∧ (p.tx >>= f).after failed db = (f a).after failed db') ∨ (p.tx >>= f).after failed db = db := by
  rw [after,run_bind]
  rcases run_tx hp failed db with ⟨a,db',hreturns,hrun⟩ | ⟨e,hrun⟩
  · exact .inl ⟨a,db',hreturns,by rw [hrun]; rfl⟩
  · exact .inr (by rw [hrun]; rfl)

/-- A transaction that can be carried out is. -/
theorem after_tx_of_returns (hp : p.Only S) (h : p.Returns db a db') (f : α → Program D ε β) (failed : ε) :
    (p.tx >>= f).after failed db = (f a).after failed db' := by
  have htx : p.tx.run failed none db = (p.run failed (some db) db).bind fun r => .ok (r.1,none,r.2.2) :=
    run_bind failed p (fun a => .commit (.pure a)) (some db) db
  rw [after,run_bind,htx,hp.run_of_returns h]
  rfl

theorem after_query_bind {q : D.Stmt} {f : D.Result q → Program D ε β} {mid : D.State} (h : D.land db (D.eval db q).2 = some mid) :
    (query q >>= f).after failed db = (f (D.eval db q).1).after failed mid := by
  change tablesLeft ((Program.stmt q f).run failed none db) = _
  rw [run,h]
  rfl

end Statements

end Program
end JustMail.Foundation
