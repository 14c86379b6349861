import Mathlib.Data.List.Perm.Subperm
import Mathlib.Data.List.Sort
import JustMail.Foundation.CodeUnits
import JustMail.Foundation.KeyedTable
import JustMail.Foundation.Transactions

/-! `runMigrations`, which every process runs when it starts. Any number of runners work through the
same directory at the same time; each goes by what it has read of the ledger before. -/
namespace JustMail.Platform
open Foundation

section Model

/-- The directory, the statements of its files, and the tables they are about. The files are those of
one directory, and none of their statements begins or ends a transaction. -/
structure Migrations where
  tables : Database
  organizationsPresent : tables.State → Bool
  dir : List JsString
  dir_nodup : dir.Nodup
  sql : JsString → List tables.Stmt

/-- `(await fs.readdir(dir)).filter((f) => f.endsWith(".sql")).sort()`. -/
def Migrations.files (m : Migrations) : List JsString := (m.dir.filter fun f => (js ".sql").isSuffixOf f).insertionSort (· ≤ ·)

/-- `schema_migrations`, by its key. -/
abbrev Ledger := Table fun filename : JsString => filename

/-- `ran` is what the statements are about: the files whose SQL has been committed, in this order. -/
structure Migrated (tables : Database) where
  schema : tables.State
  ledger : Ledger
  ran : List JsString

/-- A file arrives as one text, and its statements are carried out one after the other. -/
inductive MigrationStmt (tables : Database) where
  | createLedger
  | selectLedger
  | probe
  | baseline (f : JsString)
  | text (f : JsString)
  | sql (q : tables.Stmt)
  | record (f : JsString)

def MigrationStmt.Result {tables : Database} : MigrationStmt tables → Type
  | .selectLedger => List JsString
  | .probe => Bool
  | _ => Unit

inductive MigrationWrite (tables : Database) where
  | ran (f : JsString)
  | schema (w : tables.Write)
  | ledger (f : JsString)

variable (m : Migrations)

def evalMigration (db : Migrated m.tables) : (q : MigrationStmt m.tables) → q.Result × List (MigrationWrite m.tables)
  | .createLedger => ((),[])
  | .selectLedger => (db.ledger.rows,[])
  | .probe => (m.organizationsPresent db.schema,[])
  | .baseline f => ((),if db.ledger.lookup f = none then [.ledger f] else [])
  | .text f => ((),[.ran f])
  | .sql q => ((),(m.tables.eval db.schema q).2.map .schema)
  | .record f => ((),[.ledger f])

def applyMigration (db : Migrated m.tables) : MigrationWrite m.tables → Option (Migrated m.tables)
  | .ran f => some { db with ran := db.ran ++ [f] }
  | .schema w => (m.tables.apply db.schema w).map fun schema => { db with schema := schema }
  | .ledger f => if h : db.ledger.lookup f = none then some { db with ledger := db.ledger.insert f h } else none

def migrationDatabase : Database where
  State := Migrated m.tables
  Stmt := MigrationStmt m.tables
  Result := MigrationStmt.Result
  Write := MigrationWrite m.tables
  eval := evalMigration m
  apply := applyMigration m

/-- Errors are told apart by the code alone: none of them is handled. -/
abbrev Runner (α : Type) := Program (migrationDatabase m) Unit α

def ask (q : MigrationStmt m.tables) : Runner m q.Result := Program.query (D := migrationDatabase m) q

/-- `client.query(sql)`. -/
def execSql : List m.tables.Stmt → Runner m Unit
  | [] => pure ()
  | q :: qs => ask m (.sql q) >>= fun _ => execSql qs

def runFile (f : JsString) : Runner m Unit := Program.tx (ask m (.text f) >>= fun _ => execSql m (m.sql f) >>= fun _ => ask m (.record f))

/-- The loop over the files, with those that it has run so far. -/
def runFiles (applied : List JsString) : List JsString → List JsString → Runner m (List JsString)
  | [], ran => pure ran
  | f :: files, ran =>
    if f ∈ applied then runFiles applied files ran
    else runFile m f >>= fun _ => runFiles applied files (ran ++ [f])

/-- An empty ledger next to a schema: the first file was applied by hand. -/
def baseline (first : JsString) : Runner m (List JsString) :=
  ask m .probe >>= fun present : Bool =>
    if present then ask m (.baseline first) >>= fun _ => runFiles m [first] m.files []
    else runFiles m [] m.files []

def readLedger : Runner m (List JsString) :=
  ask m .selectLedger >>= fun applied : List JsString =>
    match applied, m.files with
    | [], first :: _ => baseline m first
    | applied, files => runFiles m applied files []

def runMigrations : Runner m (List JsString) := ask m .createLedger >>= fun _ => readLedger m

abbrev Runners := Server (migrationDatabase m) Unit (List JsString)

def migrationStep : Runners m → ServerAction Unit → Option (Runners m) := Server.step (fun _ => runMigrations m) ()

/-- The ledger lists the files that have been committed. -/
def Recorded (db : Migrated m.tables) : Prop := ∀ f, f ∈ db.ledger.rows ↔ f ∈ db.ran

/-- Some of the files have been applied, from the first on. The ledger lists them, or else the first has
been applied by hand, before there was one. Without any the schema is not there. -/
structure Prefixed (db : Migrated m.tables) : Prop where
  ran : db.ran <+: m.files
  ledger : (Recorded m db ∧ (db.ran = [] → m.organizationsPresent db.schema = false)) ∨
    (db.ledger.rows = [] ∧ db.ran.length = 1 ∧ m.organizationsPresent db.schema = true)

/-- Files are committed once each, in their order and from the first on; as soon as one has been, the
ledger lists exactly these. What a runner does to a file until its commit, or instead of it, leaves
schema and ledger as they are. -/
structure MigratedOnce (start : Migrated m.tables) (s : Runners m) : Prop where
  ordered : s.db.ran.Pairwise (· < ·)
  ran : s.db.ran <+: m.files
  ledger : s.db.ran ≠ start.ran → Recorded m s.db
  uncommitted : ∀ (i : Nat) (t : Runners m) (c : Client (migrationDatabase m) Unit (List JsString)), migrationStep m s (.exec i) = some t →
    t.clients[i]? = some c → (c.buffer.isSome = true ∨ ∃ e, c.program = .throw e) → t.db = s.db

end Model

section Files
variable {m : Migrations}

theorem files_nodup : m.files.Nodup := (List.perm_insertionSort _ _).nodup_iff.mpr (m.dir_nodup.filter _)

theorem files_sorted : m.files.Pairwise (· < ·) := by
  have htotal : Std.Total fun a b : JsString => a ≤ b := ⟨List.le_total⟩
  have htrans : IsTrans JsString fun a b => a ≤ b := ⟨fun _ _ _ => List.le_trans⟩
  have hle : m.files.Pairwise (· ≤ ·) := List.pairwise_insertionSort _ _
  exact (hle.and files_nodup).imp fun h => Std.lt_of_le_of_ne h.1 h.2

/-- The next file after those that have been run. -/
theorem ran_eq_of_next {ran pre rest : List JsString} {f : JsString} (hran : ran <+: m.files) (hfiles : m.files = pre ++ f :: rest)
    (hpre : ∀ g ∈ pre, g ∈ ran) (hf : f ∉ ran) : ran = pre := by
  have hnext : pre ++ [f] <+: m.files := ⟨rest,by rw [hfiles,List.append_assoc]; rfl⟩
  have hle : ran <+: pre := by
    rcases List.prefix_or_prefix_of_prefix hran hnext with h | h
    · rcases List.prefix_concat_iff.mp h with heq | h
      · exact absurd (heq ▸ List.mem_append_right _ (List.mem_singleton_self f)) hf
      · exact h
    · exact absurd (h.subset (List.mem_append_right _ (List.mem_singleton_self f))) hf
  have hnodup : pre.Nodup := files_nodup.sublist (hfiles ▸ List.sublist_append_left _ _)
  exact hle.eq_of_length_le (List.subperm_of_subset hnodup hpre).length_le

end Files

section Runners
variable {m : Migrations} {db db' : Migrated m.tables} {applied pre rest ran : List JsString} {f first : JsString}
variable {ws : List m.tables.Write}

/-- The transaction of a file from here on. -/
def inFile (f : JsString) (rest : Runner m (List JsString)) : List m.tables.Stmt → Runner m (List JsString)
  | [] => .stmt (.record f) fun _ => .commit rest
  | q :: qs => .stmt (.sql q) fun _ => inFile f rest qs

theorem execSql_bind (f : JsString) (rest : Runner m (List JsString)) (qs : List m.tables.Stmt) :
    (((execSql m qs >>= fun _ => ask m (.record f)).bind fun a => .commit (.pure a)).bind fun _ => rest) = inFile f rest qs := by
  induction qs with
  | nil => rfl
  | cons q qs ih => exact congrArg (Program.stmt _) (funext fun _ => ih)

theorem runFile_bind (f : JsString) (rest : Runner m (List JsString)) :
    (runFile m f >>= fun _ => rest) = .begin (.stmt (.text f) fun _ => inFile f rest (m.sql f)) := by
  have hsql := execSql_bind f rest (m.sql f)
  exact congrArg Program.begin (congrArg (Program.stmt _) (funext fun _ => hsql))

def fileWrites (f : JsString) (ws : List m.tables.Write) : List (MigrationWrite m.tables) := .ran f :: ws.map .schema

theorem fileWrites_append (f : JsString) (ws ws' : List m.tables.Write) :
    fileWrites f ws ++ (ws'.map .schema : List (MigrationWrite m.tables)) = fileWrites f (ws ++ ws') := by
  rw [fileWrites,fileWrites,List.map_append,List.cons_append]

/-- The runner is in its loop: what it has passed has been committed, and so has what it has read. -/
structure InLoop (db : Migrated m.tables) (applied pre rest : List JsString) : Prop where
  files : m.files = pre ++ rest
  passed : ∀ g ∈ pre, g ∈ db.ran
  applied : ∀ g ∈ applied, g ∈ db.ran
  recorded : rest ≠ [] → Recorded m db

inductive RunnerAt (db : Migrated m.tables) : Client (migrationDatabase m) Unit (List JsString) → Prop where
  | started : RunnerAt db ⟨runMigrations m,none⟩
  | reading : RunnerAt db ⟨readLedger m,none⟩
  | probing {first : JsString} {rest : List JsString} (hfiles : m.files = first :: rest) : RunnerAt db ⟨baseline m first,none⟩
  | baselining {first : JsString} (hfirst : first ∈ db.ran) :
    RunnerAt db ⟨.stmt (.baseline first) fun _ => runFiles m [first] m.files [],none⟩
  | looping {applied pre rest ran : List JsString} (h : InLoop db applied pre rest) : RunnerAt db ⟨runFiles m applied rest ran,none⟩
  | receiving {f : JsString} {applied pre rest ran : List JsString} (h : InLoop db applied pre (f :: rest)) :
    RunnerAt db ⟨.stmt (.text f) fun _ => inFile f (runFiles m applied rest ran) (m.sql f),some []⟩
  | running {f : JsString} {applied pre rest ran : List JsString} {written : List (MigrationWrite m.tables)} (qs : List m.tables.Stmt)
    (ws : List m.tables.Write) (hws : written = fileWrites f ws) (h : InLoop db applied pre (f :: rest)) :
    RunnerAt db ⟨inFile f (runFiles m applied rest ran) qs,some written⟩
  | committing {f : JsString} {applied pre rest ran : List JsString} (ws : List m.tables.Write) (h : InLoop db applied pre (f :: rest)) :
    RunnerAt db ⟨.commit (runFiles m applied rest ran),some (fileWrites f ws ++ [.ledger f])⟩
  | failed : RunnerAt db ⟨.throw (),none⟩

/-- What other runners do meanwhile. -/
structure Grows (db db' : Migrated m.tables) : Prop where
  ran : db.ran <+: db'.ran
  recorded : Recorded m db → Recorded m db'

theorem Grows.refl (db : Migrated m.tables) : Grows db db := ⟨List.prefix_refl _,id⟩

theorem Grows.trans {db'' : Migrated m.tables} (h : Grows db db') (h' : Grows db' db'') : Grows db db'' :=
  ⟨h.ran.trans h'.ran,fun hdb => h'.recorded (h.recorded hdb)⟩

theorem InLoop.mono {applied pre rest : List JsString} (h : InLoop db applied pre rest) (hgrows : Grows db db') :
    InLoop db' applied pre rest where
  files := h.files
  passed g hg := hgrows.ran.subset (h.passed g hg)
  applied g hg := hgrows.ran.subset (h.applied g hg)
  recorded hrest := hgrows.recorded (h.recorded hrest)

theorem RunnerAt.mono {c : Client (migrationDatabase m) Unit (List JsString)} (h : RunnerAt db c) (hgrows : Grows db db') :
    RunnerAt db' c := by
  cases h with
  | started => exact .started
  | reading => exact .reading
  | probing hfiles => exact .probing hfiles
  | baselining hfirst => exact .baselining (hgrows.ran.subset hfirst)
  | looping h => exact .looping (h.mono hgrows)
  | receiving h => exact .receiving (h.mono hgrows)
  | running qs ws hws h => exact .running qs ws hws (h.mono hgrows)
  | committing ws h => exact .committing ws (h.mono hgrows)
  | failed => exact .failed

/-- A schema is there once the first file is. -/
theorem Prefixed.first_of_present (h : Prefixed m db) {rest : List JsString} (hfiles : m.files = first :: rest)
    (hpresent : m.organizationsPresent db.schema = true) : first ∈ db.ran := by
  have hne : db.ran ≠ [] := by
    rintro hnil
    rcases h.ledger with ⟨-,habsent⟩ | ⟨-,hlength,-⟩
    · simp [habsent hnil] at hpresent
    · simp [hnil] at hlength
  obtain ⟨tail,htail⟩ := h.ran
  obtain ⟨g,ran,hran⟩ := List.exists_cons_of_ne_nil hne
  rw [hran,hfiles] at htail
  cases htail
  exact hran ▸ List.mem_cons_self

theorem Prefixed.recorded_of_absent (h : Prefixed m db) (habsent : m.organizationsPresent db.schema = false) : Recorded m db := by
  rcases h.ledger with ⟨hrecorded,-⟩ | ⟨-,-,hpresent⟩
  · exact hrecorded
  · simp [habsent] at hpresent

theorem Prefixed.recorded_of_ledger (h : Prefixed m db) (hledger : db.ledger.rows ≠ []) : Recorded m db := by
  rcases h.ledger with ⟨hrecorded,-⟩ | ⟨hnil,-,-⟩
  · exact hrecorded
  · exact absurd hnil hledger

def landed (db : Migrated m.tables) (ws : List (MigrationWrite m.tables)) : Option (Migrated m.tables) := ws.foldlM (applyMigration m) db

theorem landed_cons {w : MigrationWrite m.tables} {ws : List (MigrationWrite m.tables)} (h : landed db (w :: ws) = some db') :
    ∃ mid, applyMigration m db w = some mid ∧ landed mid ws = some db' := by
  rw [landed,List.foldlM_cons] at h
  exact Option.bind_eq_some_iff.mp h

/-- The writes of a file's statements leave ledger and history alone. -/
theorem landed_schema {rest : List (MigrationWrite m.tables)} (h : landed db (ws.map .schema ++ rest) = some db') :
    ∃ mid : Migrated m.tables, mid.ledger = db.ledger ∧ mid.ran = db.ran ∧ landed mid rest = some db' := by
  induction ws generalizing db with
  | nil => exact ⟨db,rfl,rfl,h⟩
  | cons w ws ih =>
    obtain ⟨next,hnext,h⟩ := landed_cons h
    obtain ⟨schema,-,rfl⟩ := Option.map_eq_some_iff.mp hnext
    obtain ⟨mid,hledger,hran,hrest⟩ := ih h
    exact ⟨mid,hledger,hran,hrest⟩

theorem landed_ledger (h : landed db [.ledger f] = some db') :
    f ∉ db.ledger.rows ∧ db'.ran = db.ran ∧ db'.schema = db.schema ∧ ∀ g, g ∈ db'.ledger.rows ↔ g ∈ db.ledger.rows ∨ g = f := by
  obtain ⟨next,hnext,hend⟩ := landed_cons h
  obtain rfl : next = db' := Option.some.inj hend
  rw [applyMigration] at hnext
  split at hnext
  · rename_i hfresh
    cases hnext
    refine ⟨fun hf => Table.lookup_eq_none.mp hfresh f hf rfl,rfl,rfl,fun g => ?_⟩
    rw [Table.insert,List.mem_append,List.mem_singleton]
  · simp at hnext

/-- What the commit of a file does: the ledger did not have it. -/
theorem landed_file (h : landed db (fileWrites f ws ++ [.ledger f]) = some db') :
    f ∉ db.ledger.rows ∧ db'.ran = db.ran ++ [f] ∧ ∀ g, g ∈ db'.ledger.rows ↔ g ∈ db.ledger.rows ∨ g = f := by
  rw [fileWrites,List.cons_append] at h
  obtain ⟨noted,hnoted,h⟩ := landed_cons h
  cases hnoted
  obtain ⟨mid,hledger,hran,h⟩ := landed_schema h
  obtain ⟨hfresh,hran',-,hmem⟩ := landed_ledger h
  rw [hledger] at hfresh hmem
  exact ⟨hfresh,hran'.trans hran,hmem⟩

/-- The file that a runner commits is the next one. -/
theorem prefixed_commit (hdb : Prefixed m db) {applied pre rest : List JsString}
    (h : InLoop db applied pre (f :: rest)) (hland : landed db (fileWrites f ws ++ [.ledger f]) = some db') :
    Prefixed m db' ∧ Grows db db' ∧ InLoop db' applied (pre ++ [f]) rest := by
  obtain ⟨hfresh,hran,hledger⟩ := landed_file hland
  have hrecorded := h.recorded (List.cons_ne_nil f rest)
  have hpre : db.ran = pre := ran_eq_of_next hdb.ran h.files h.passed fun hf => hfresh ((hrecorded f).mpr hf)
  have hrecorded' : Recorded m db' := by
    intro g
    rw [hledger,hran,hrecorded g,List.mem_append,List.mem_singleton]
  have hgrows : Grows db db' := ⟨⟨[f],hran.symm⟩,fun _ => hrecorded'⟩
  refine ⟨⟨?_,.inl ⟨hrecorded',?_⟩⟩,hgrows,?_⟩
  · exact ⟨rest,by rw [hran,hpre,h.files,List.append_assoc]; rfl⟩
  · simp [hran]
  · refine ⟨by rw [h.files,List.append_assoc]; rfl,fun g hg => ?_,(h.mono hgrows).applied,fun _ => hrecorded'⟩
    rw [hran,hpre]
    exact hg

/-- The first file, which is there, is recorded if it is not yet. -/
theorem prefixed_baseline (hdb : Prefixed m db) (hfirst : first ∈ db.ran)
    (hland : landed db (evalMigration m db (.baseline first)).2 = some db') :
    Prefixed m db' ∧ Grows db db' ∧ Recorded m db' := by
  rw [evalMigration] at hland
  by_cases hlookup : db.ledger.lookup first = none
  · rw [if_pos hlookup] at hland
    obtain ⟨hfresh,hran,hschema,hledger⟩ := landed_ledger hland
    rcases hdb.ledger with ⟨hrecorded,-⟩ | ⟨hnil,hlength,-⟩
    · exact absurd ((hrecorded first).mpr hfirst) hfresh
    · obtain ⟨g,hg⟩ := List.length_eq_one_iff.mp hlength
      obtain rfl : first = g := by simpa [hg] using hfirst
      have hrecorded' : Recorded m db' := by
        intro g
        rw [hledger,hnil,hran,hg]
        simp
      exact ⟨⟨hran ▸ hdb.ran,.inl ⟨hrecorded',by simp [hran,hg]⟩⟩,⟨hran ▸ List.prefix_refl _,fun _ => hrecorded'⟩,hrecorded'⟩
  · rw [if_neg hlookup] at hland
    cases hland
    have hledger : db.ledger.rows ≠ [] := by
      rintro hnil
      exact hlookup (by simp [Table.lookup,hnil])
    exact ⟨hdb,.refl db,hdb.recorded_of_ledger hledger⟩

/-- What a step of a runner does: it keeps the tables in order and its own place, and leaves them as they
are where it stays in a transaction or fails. -/
structure RunnerStep (db db' : Migrated m.tables) (c' : Client (migrationDatabase m) Unit (List JsString)) : Prop where
  kept : Prefixed m db'
  grows : Grows db db'
  place : RunnerAt db' c'
  uncommitted : (c'.buffer.isSome = true ∨ ∃ e, c'.program = .throw e) → db' = db

variable {c c' : Client (migrationDatabase m) Unit (List JsString)}

/-- A step that changes no table. -/
theorem runnerStep_same (hdb : Prefixed m db) (hplace : RunnerAt db c') : RunnerStep db db c' := ⟨hdb,.refl db,hplace,fun _ => rfl⟩

/-- The program of the loop is never an exception. -/
theorem runFiles_ne_throw (applied rest ran : List JsString) (e : Unit) : runFiles m applied rest ran ≠ .throw e := by
  induction rest generalizing ran with
  | nil => simp [runFiles,pure]
  | cons f rest ih =>
    rw [runFiles]
    split
    · exact ih ran
    · rw [runFile_bind]
      simp

theorem runnerStep_looping (hdb : Prefixed m db) (h : InLoop db applied pre rest)
    (hstep : Client.advance () db (⟨runFiles m applied rest ran,none⟩ : Client (migrationDatabase m) Unit (List JsString)) =
      some (db',c')) :
    RunnerStep db db' c' := by
  induction rest generalizing pre ran with
  | nil => simp [runFiles,pure,Client.advance] at hstep
  | cons f rest ih =>
    rw [runFiles] at hstep
    split at hstep
    · rename_i hf
      have hnext : InLoop db applied (pre ++ [f]) rest := by
        refine ⟨by rw [h.files,List.append_assoc]; rfl,fun g hg => ?_,h.applied,fun _ => h.recorded (List.cons_ne_nil f rest)⟩
        rcases List.mem_append.mp hg with hg | hg
        · exact h.passed g hg
        · obtain rfl := List.mem_singleton.mp hg
          exact h.applied g hf
      exact ih hnext hstep
    · rw [runFile_bind] at hstep
      obtain ⟨rfl,rfl⟩ := Client.advance_begin hstep
      exact runnerStep_same hdb (.receiving h)

theorem runnerStep_running (hdb : Prefixed m db) (qs : List m.tables.Stmt)
    (ws : List m.tables.Write) (h : InLoop db applied pre (f :: rest))
    (hstep : Client.advance () db (⟨inFile f (runFiles m applied rest ran) qs,some (fileWrites f ws)⟩ :
      Client (migrationDatabase m) Unit (List JsString)) = some (db',c')) : RunnerStep db db' c' := by
  cases qs with
  | nil =>
    obtain ⟨rfl,rfl | ⟨view,rfl⟩⟩ := Client.advance_stmt_tx hstep
    · exact runnerStep_same hdb .failed
    · exact runnerStep_same hdb (.committing ws h)
  | cons q qs =>
    obtain ⟨rfl,rfl | ⟨view,rfl⟩⟩ := Client.advance_stmt_tx hstep
    · exact runnerStep_same hdb .failed
    · exact runnerStep_same hdb (.running qs _ (fileWrites_append f ws (m.tables.eval (Migrated.schema view) q).2) h)

theorem runnerStep_committing (hdb : Prefixed m db) (ws : List m.tables.Write)
    (h : InLoop db applied pre (f :: rest))
    (hstep : Client.advance () db (⟨.commit (runFiles m applied rest ran),some (fileWrites f ws ++ [.ledger f])⟩ :
      Client (migrationDatabase m) Unit (List JsString)) = some (db',c')) : RunnerStep db db' c' := by
  rcases Client.advance_commit hstep with ⟨rfl,rfl⟩ | ⟨hland,rfl⟩
  · exact runnerStep_same hdb .failed
  · obtain ⟨hkept,hgrows,hloop⟩ := prefixed_commit hdb h hland
    refine ⟨hkept,hgrows,.looping hloop,?_⟩
    rintro (hbuffer | ⟨e,hthrow⟩)
    · simp at hbuffer
    · exact absurd hthrow (runFiles_ne_throw applied rest ran e)

theorem runnerStep_baselining (hdb : Prefixed m db) (hfirst : first ∈ db.ran)
    (hstep : Client.advance () db (⟨.stmt (.baseline first) fun _ => runFiles m [first] m.files [],none⟩ :
      Client (migrationDatabase m) Unit (List JsString)) = some (db',c')) : RunnerStep db db' c' := by
  rcases Client.advance_stmt hstep with ⟨rfl,rfl⟩ | ⟨hland,rfl⟩
  · exact runnerStep_same hdb .failed
  · obtain ⟨hkept,hgrows,hrecorded⟩ := prefixed_baseline hdb hfirst hland
    have hloop : InLoop db' [first] [] m.files := ⟨rfl,by simp,by simpa using hgrows.ran.subset hfirst,fun _ => hrecorded⟩
    refine ⟨hkept,hgrows,.looping hloop,?_⟩
    · rintro (hbuffer | ⟨e,hthrow⟩)
      · simp at hbuffer
      · exact absurd hthrow (runFiles_ne_throw _ _ _ e)

/-- The runner has asked whether there is a schema. -/
theorem runnerStep_probing (hdb : Prefixed m db) {rest : List JsString} (hfiles : m.files = first :: rest)
    (hstep : Client.advance () db (⟨baseline m first,none⟩ : Client (migrationDatabase m) Unit (List JsString)) = some (db',c')) :
    RunnerStep db db' c' := by
  rcases Client.advance_stmt hstep with ⟨rfl,rfl⟩ | ⟨hland,rfl⟩
  · exact runnerStep_same hdb .failed
  · cases hland
    refine runnerStep_same hdb ?_
    change RunnerAt db ⟨if m.organizationsPresent (Migrated.schema db) then _ else _,none⟩
    split
    · rename_i hpresent
      exact .baselining (hdb.first_of_present hfiles hpresent)
    · rename_i habsent
      have hrecorded := hdb.recorded_of_absent (Bool.eq_false_iff.mpr habsent)
      have hloop : InLoop db [] [] m.files := ⟨rfl,by simp,by simp,fun _ => hrecorded⟩
      exact .looping hloop

theorem runnerStep_reading (hdb : Prefixed m db)
    (hstep : Client.advance () db (⟨readLedger m,none⟩ : Client (migrationDatabase m) Unit (List JsString)) = some (db',c')) :
    RunnerStep db db' c' := by
  rcases Client.advance_stmt hstep with ⟨rfl,rfl⟩ | ⟨hland,rfl⟩
  · exact runnerStep_same hdb .failed
  · cases hland
    refine runnerStep_same hdb ?_
    change RunnerAt db ⟨match Migrated.ledger db |>.rows,m.files with
      | [],first :: _ => baseline m first
      | applied,files => runFiles m applied files [],none⟩
    split
    · rename_i hfiles
      exact .probing hfiles
    · rename_i hother
      have hrecorded : m.files ≠ [] → Recorded m db := by
        intro hne
        obtain ⟨first,rest,hfiles⟩ := List.exists_cons_of_ne_nil hne
        exact hdb.recorded_of_ledger fun hnil => hother first rest hnil hfiles
      have hloop : InLoop db (Migrated.ledger db).rows [] m.files := by
        refine ⟨rfl,by simp,fun g hg => ?_,hrecorded⟩
        exact (hdb.recorded_of_ledger (List.ne_nil_of_mem hg) g).mp hg
      exact .looping hloop

theorem runnerStep_of_advance (hdb : Prefixed m db) (hplace : RunnerAt db c) (hstep : c.advance () db = some (db',c')) :
    RunnerStep db db' c' := by
  cases hplace with
  | started =>
    rcases Client.advance_stmt hstep with ⟨rfl,rfl⟩ | ⟨hland,rfl⟩
    · exact runnerStep_same hdb .failed
    · cases hland
      exact runnerStep_same hdb .reading
  | reading => exact runnerStep_reading hdb hstep
  | probing hfiles => exact runnerStep_probing hdb hfiles hstep
  | baselining hfirst => exact runnerStep_baselining hdb hfirst hstep
  | looping h => exact runnerStep_looping hdb h hstep
  | @receiving f applied pre rest ran h =>
    obtain ⟨rfl,rfl | ⟨view,rfl⟩⟩ := Client.advance_stmt_tx hstep
    · exact runnerStep_same hdb .failed
    · exact runnerStep_same hdb (.running (m.sql f) [] rfl h)
  | running qs ws hws h =>
    subst hws
    exact runnerStep_running hdb qs ws h hstep
  | committing ws h => exact runnerStep_committing hdb ws h hstep
  | failed => simp [Client.advance] at hstep

end Runners

section Runs
variable {m : Migrations} {start : Migrated m.tables} {s t : Runners m}

structure RunnersInv (start : Migrated m.tables) (s : Runners m) : Prop where
  kept : Prefixed m s.db
  grows : Grows start s.db
  places : ∀ c ∈ s.clients, RunnerAt s.db c

theorem runnersInv_step {a : ServerAction Unit} (h : RunnersInv start s) (hstep : migrationStep m s a = some t) : RunnersInv start t := by
  rcases Server.step_cases hstep with ⟨_,-,rfl⟩ | ⟨i,c,db,c',-,hc,hadvance,rfl⟩
  · refine ⟨h.kept,h.grows,fun c hc => ?_⟩
    rcases List.mem_append.mp hc with hold | hnew
    · exact h.places c hold
    · obtain rfl := List.mem_singleton.mp hnew
      exact .started
  · have hmoved := runnerStep_of_advance h.kept (h.places c (List.mem_of_getElem? hc)) hadvance
    refine ⟨hmoved.kept,h.grows.trans hmoved.grows,fun other hother => ?_⟩
    rcases List.mem_or_eq_of_mem_set hother with hother | rfl
    · exact (h.places other hother).mono hmoved.grows
    · exact hmoved.place

/-- A ledger that does not list what has been committed is still the one of the start. -/
theorem RunnersInv.recorded (h : RunnersInv start s) (hstart : Prefixed m start) (hran : s.db.ran ≠ start.ran) : Recorded m s.db := by
  rcases h.kept.ledger with ⟨hrecorded,-⟩ | ⟨hnil,hlength,-⟩
  · exact hrecorded
  · rcases hstart.ledger with ⟨hrecorded,-⟩ | ⟨-,hlength',-⟩
    · exact h.grows.recorded hrecorded
    · exact absurd (h.grows.ran.eq_of_length (by omega)).symm hran

/-- In every run of runners next to each other. -/
theorem migrated_once (hstart : Prefixed m start) (hrun : Run (migrationStep m) (fun _ _ => True) ⟨start,[]⟩ s) :
    MigratedOnce m start s := by
  have hend : RunnersInv start s := hrun.invariant (fun _ _ _ h _ hstep => runnersInv_step h hstep) ⟨hstart,.refl start,by simp⟩
  refine ⟨files_sorted.sublist hend.kept.ran.sublist,hend.kept.ran,hend.recorded hstart,?_⟩
  intro i t c hstep hc huncommitted
  rcases Server.step_cases hstep with ⟨_,hcall,-⟩ | ⟨i',c₀,db,c',hexec,hc₀,hadvance,rfl⟩
  · simp at hcall
  · cases hexec
    rw [getElem?_set_of_some hc₀,if_pos rfl] at hc
    cases hc
    exact (runnerStep_of_advance hend.kept (hend.places c₀ (List.mem_of_getElem? hc₀)) hadvance).uncommitted huncommitted

def names : Database where
  State := List JsString
  Stmt := JsString
  Result _ := Unit
  Write := JsString
  eval _ q := ((),[q])
  apply db q := if q ∈ db then none else some (db ++ [q])

def twoFiles : Migrations where
  tables := names
  organizationsPresent db := (db : List JsString).contains (js "organizations")
  dir := [js "2.sql",js "1.sql"]
  dir_nodup := by decide
  sql f := if f = js "1.sql" then [js "organizations"] else [js "rules",js "themes"]

/-- The first file has been applied by hand. -/
def byHand : Migrated twoFiles.tables where
  schema := [js "organizations"]
  ledger := .empty
  ran := [js "1.sql"]

theorem prefixed_byHand : Prefixed twoFiles byHand where
  ran := ⟨[js "2.sql"],by decide⟩
  ledger := .inr ⟨rfl,rfl,by decide⟩

/-- Two runners read the empty ledger, both record the first file, and both run the second: one of them
commits it, the other fails. -/
theorem second_file_once : ∃ s, Run (migrationStep twoFiles) (fun _ _ => True) ⟨byHand,[]⟩ s ∧ s.db.ran = [js "1.sql",js "2.sql"] ∧
    MigratedOnce twoFiles byHand s := by
  have hactions : (runActions (migrationStep twoFiles) (fun _ _ => True) ⟨byHand,[]⟩
      ([.call (),.call (),.exec 0,.exec 1,.exec 0,.exec 1] ++ List.replicate 4 (.exec 0) ++ List.replicate 8 (.exec 1) ++
        List.replicate 2 (.exec 0))).map
        (fun s => (s.db.ran : List JsString)) = some [js "1.sql",js "2.sql"] := by decide +kernel
  obtain ⟨s,hs,hran⟩ := Option.map_eq_some_iff.mp hactions
  have hrun := Run.of_actions hs
  exact ⟨s,hrun,hran,migrated_once prefixed_byHand hrun⟩

end Runs
end JustMail.Platform
