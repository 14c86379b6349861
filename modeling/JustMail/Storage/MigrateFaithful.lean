import JustMail.Storage.Migrate

/-! What a migration without failures leaves in the target: for every key an object of the
size that the source has now, with bytes that the source has held under the key. -/
namespace JustMail.Storage
open Foundation

section Settled
variable {force : Bool} {target : Bucket} {o object : StorageObject} {entry : ListEntry}

/-- The target has an object as large as `o`, and with the bytes of `o` if it was forced. -/
def Settled (force : Bool) (target : Bucket) (o : StorageObject) : Prop :=
  ∃ t, target.lookup o.key = some t ∧ t.size = o.size ∧ (force = true → t.body = o.body)

theorem Settled.of_sameSize (h : targetHasSameSize target entry = true) (hkey : o.key = entry.key) (hsize : o.size = entry.size) :
    Settled false target o := by
  obtain ⟨t,ht,heq⟩ := (Option.any_eq_true _ _).mp h
  exact ⟨t,hkey ▸ ht,by rw [hsize]; simpa using heq,by simp⟩

/-- A copy of what the source has settles its key and disturbs no other. -/
theorem settled_upsert (hbody : o.key = object.key → object.body = o.body)
    (h : o.key = object.key ∨ Settled force target o) : Settled force (target.upsert object) o := by
  by_cases hkey : o.key = object.key
  · refine ⟨object,by rw [Table.lookup_upsert,if_pos hkey],?_,fun _ => hbody hkey⟩
    rw [StorageObject.size,StorageObject.size,hbody hkey]
  · obtain ⟨t,ht,hsame⟩ := h.resolve_left hkey
    exact ⟨t,by rw [Table.lookup_upsert,if_neg hkey,ht],hsame⟩

end Settled

section Invariant

def Phase.entry : Phase → Option ListEntry
  | .nextEntry => none
  | .headTarget entry | .getStream entry | .headSource entry _ | .putTarget entry _ | .verify entry => some entry

/-- The bytes that a run has read and is about to write. -/
def Phase.inFlight : Phase → Option (JsString × Bytes)
  | .headSource entry body => some (entry.key,body)
  | .putTarget _ object => some (object.key,object.body)
  | _ => none

/-- The object that a run puts goes to the key of the entry, and a forced run asks for no size. -/
def Phase.Sound (opts : MigrateOptions) : Phase → Prop
  | .headTarget _ => opts.force = false
  | .putTarget entry object => object.key = entry.key
  | _ => True

/-- A run during which the source has not changed: its entries and the bytes it carries
are those of the source, and every key that it is through with is settled. -/
structure Progress (s : MigrateState) (m : Migration) : Prop where
  entries : ∀ entry, entry ∈ m.queue ∨ m.phase.entry = some entry →
    ∃ o, s.source.lookup entry.key = some o ∧ o.size = entry.size
  inFlight : ∀ key body, m.phase.inFlight = some (key,body) → ∃ o, s.source.lookup key = some o ∧ o.body = body
  verifying : ∀ entry, m.phase = .verify entry → ∀ o ∈ s.source.rows, o.key = entry.key → Settled m.opts.force s.target o
  through : m.summary.failed = 0 → m.opts.dryRun = false → ∀ o ∈ s.source.rows,
    o.key ∈ m.unlisted ∨ (∃ entry, (entry ∈ m.queue ∨ m.phase.entry = some entry) ∧ entry.key = o.key) ∨
    Settled m.opts.force s.target o

structure MigrateInv (s : MigrateState) : Prop where
  held : ∀ o ∈ s.source.rows, (o.key,o.body) ∈ s.history
  copied : ∀ t ∈ s.target.rows, (t.key,t.body) ∈ s.history
  inFlight : ∀ m, s.running = some m → m.phase.Sound m.opts ∧ ∀ p, m.phase.inFlight = some p → p ∈ s.history
  progress : s.touched = false → ∀ m, s.running = some m → Progress s m
  finished : s.touched = false → ∀ opts summary, s.finished = some (opts,summary) → s.running = none ∧
    (summary.failed = 0 → opts.dryRun = false → ∀ o ∈ s.source.rows, Settled opts.force s.target o)

theorem migrateInv_initial (source : Bucket) : MigrateInv (.initial source) where
  held o ho := List.mem_map.mpr ⟨o,ho,rfl⟩
  copied := by simp [MigrateState.initial,Table.empty]
  inFlight := by simp [MigrateState.initial]
  progress := by simp [MigrateState.initial]
  finished := by simp [MigrateState.initial]

variable {s t : MigrateState} {m m' : Migration} {target : Bucket}

theorem mem_upsert {object o : StorageObject} (h : o ∈ (target.upsert object).rows) : o = object ∨ o ∈ target.rows := by
  have hlookup := Table.lookup_of_mem h
  rw [Table.lookup_upsert] at hlookup
  split at hlookup
  · exact .inl (Option.some.inj hlookup).symm
  · exact .inr (Table.lookup_eq_some.mp hlookup).1

theorem MigrateInv.put (h : MigrateInv s) (object : StorageObject) :
    MigrateInv { s with source := s.source.upsert object, history := s.history ++ [(object.key,object.body)], touched := true } where
  held o ho := by
    rcases mem_upsert ho with rfl | ho
    · simp
    · exact List.mem_append_left _ (h.held o ho)
  copied t ht := List.mem_append_left _ (h.copied t ht)
  inFlight m hm := ⟨(h.inFlight m hm).1,fun p hp => List.mem_append_left _ ((h.inFlight m hm).2 p hp)⟩
  progress := by simp
  finished := by simp

theorem MigrateInv.start (h : MigrateInv s) (opts : MigrateOptions) :
    MigrateInv { s with
      running := some ⟨opts,s.source.rows.map (·.key),[],.nextEntry,⟨0,0,0,0,[]⟩⟩
      finished := none
      touched := false } where
  held := h.held
  copied := h.copied
  inFlight m hm := by
    cases hm
    exact ⟨trivial,by simp [Phase.inFlight]⟩
  progress _ m hm := by
    cases hm
    refine ⟨by simp [Phase.entry],by simp [Phase.inFlight],by simp,fun _ _ o ho => .inl ?_⟩
    exact List.mem_map.mpr ⟨o,ho,rfl⟩
  finished := by simp

/-- A run goes on, and may have written to the target. -/
theorem MigrateInv.advance (h : MigrateInv s) (hm : s.running = some m) (hcopied : ∀ t ∈ target.rows, (t.key,t.body) ∈ s.history)
    (hflight : m'.phase.Sound m'.opts ∧ ∀ p, m'.phase.inFlight = some p → p ∈ s.history)
    (hprogress : Progress s m → Progress { s with target := target, running := some m' } m') :
    MigrateInv { s with target := target, running := some m' } where
  held := h.held
  copied := hcopied
  inFlight m₁ hm₁ := by
    cases hm₁
    exact hflight
  progress hquiet m₁ hm₁ := by
    cases hm₁
    exact hprogress (h.progress hquiet m hm)
  finished hquiet opts summary hfin := by
    have hnone := (h.finished hquiet opts summary hfin).1
    simp [hm] at hnone

/-- A run ends, with a summary or without. -/
theorem MigrateInv.leave (h : MigrateInv s) (hm : s.running = some m) : MigrateInv { s with running := none } where
  held := h.held
  copied := h.copied
  inFlight := by simp
  progress := by simp
  finished hquiet opts summary hfin := by
    have hnone := (h.finished hquiet opts summary hfin).1
    simp [hm] at hnone

theorem MigrateInv.finish (h : MigrateInv s) (hm : s.running = some m) (hphase : m.phase = .nextEntry) (hqueue : m.queue = [])
    (hlisted : m.unlisted = []) : MigrateInv { s with running := none, finished := some (m.opts,m.summary) } where
  held := h.held
  copied := h.copied
  inFlight := by simp
  progress := by simp
  finished hquiet opts summary hfin := by
    obtain ⟨rfl,rfl⟩ : m.opts = opts ∧ m.summary = summary := by simpa using hfin
    refine ⟨rfl,fun hfailed hdry o ho => ?_⟩
    rcases (h.progress hquiet m hm).through hfailed hdry o ho with hunlisted | ⟨entry,hentry,-⟩ | hsettled
    · simp [hlisted] at hunlisted
    · simp [hqueue,hphase,Phase.entry] at hentry
    · exact hsettled

end Invariant

section Steps
variable {s t : MigrateState} {m m' : Migration} {target : Bucket} {entry : ListEntry} {o object : StorageObject}

theorem progress_list (h : Progress s m) {key : JsString} (ho : s.source.lookup key = some o) :
    Progress { s with running := some { m with unlisted := m.unlisted.filter (· ≠ key), queue := m.queue ++ [⟨key,o.size⟩] } }
      { m with unlisted := m.unlisted.filter (· ≠ key), queue := m.queue ++ [⟨key,o.size⟩] } where
  entries entry hentry := by
    rcases hentry with hentry | hentry
    · rcases List.mem_append.mp hentry with hentry | hentry
      · exact h.entries entry (.inl hentry)
      · obtain rfl := List.mem_singleton.mp hentry
        exact ⟨o,ho,rfl⟩
    · exact h.entries entry (.inr hentry)
  inFlight := h.inFlight
  verifying := h.verifying
  through hfailed hdry o' ho' := by
    rcases h.through hfailed hdry o' ho' with hunlisted | ⟨entry,hentry,hkey⟩ | hsettled
    · by_cases hkey : o'.key = key
      · exact .inr (.inl ⟨⟨key,o.size⟩,.inl (by simp),hkey.symm⟩)
      · exact .inl (List.mem_filter.mpr ⟨hunlisted,by simpa using hkey⟩)
    · exact .inr (.inl ⟨entry,hentry.imp_left (List.mem_append_left _),hkey⟩)
    · exact .inr (.inr hsettled)

theorem progress_take {queue : List ListEntry} {p : Phase} (h : Progress s m) (hphase : m.phase = .nextEntry)
    (hqueue : m.queue = entry :: queue) (hp : p = .headTarget entry ∨ p = .getStream entry) :
    Progress { s with running := some { m with queue := queue, phase := p } } { m with queue := queue, phase := p } where
  entries e he := by
    refine h.entries e (.inl ?_)
    rw [hqueue]
    rcases he with he | he
    · exact List.mem_cons_of_mem entry he
    · obtain rfl : entry = e := by rcases hp with rfl | rfl <;> exact Option.some.inj he
      exact List.mem_cons_self
  inFlight := by rcases hp with rfl | rfl <;> simp [Phase.inFlight]
  verifying := by rcases hp with rfl | rfl <;> simp
  through hfailed hdry o ho := by
    rcases h.through hfailed hdry o ho with hunlisted | ⟨e,he,hkey⟩ | hsettled
    · exact .inl hunlisted
    · refine .inr (.inl ⟨e,?_,hkey⟩)
      rw [hphase,hqueue,Phase.entry] at he
      rcases he with he | he
      · rcases List.mem_cons.mp he with rfl | he
        · exact .inr (by rcases hp with rfl | rfl <;> rfl)
        · exact .inl he
      · simp at he
    · exact .inr (.inr hsettled)

/-- The run goes on with its entry or is through with it. -/
theorem Progress.move (h : Progress s m) (hentry : m.phase.entry = some entry) (hopts : m'.opts = m.opts)
    (hunlisted : m'.unlisted = m.unlisted) (hqueue : m'.queue = m.queue)
    (hfailed : m'.summary.failed = 0 → m.summary.failed = 0)
    (hkept : ∀ o ∈ s.source.rows, Settled m.opts.force s.target o → Settled m.opts.force target o)
    (hnext : ∀ e, m'.phase.entry = some e → e = entry)
    (hflight : ∀ key body, m'.phase.inFlight = some (key,body) → ∃ o, s.source.lookup key = some o ∧ o.body = body)
    (hdone : m'.phase.entry = some entry ∨ (m'.summary.failed = 0 → m.opts.dryRun = false →
      ∀ o ∈ s.source.rows, o.key = entry.key → Settled m.opts.force target o))
    (hverify : ∀ e, m'.phase = .verify e → ∀ o ∈ s.source.rows, o.key = e.key → Settled m.opts.force target o) :
    Progress { s with target := target, running := some m' } m' where
  entries e he := by
    rcases he with he | he
    · exact h.entries e (.inl (hqueue ▸ he))
    · exact h.entries e (.inr (hnext e he ▸ hentry))
  inFlight := hflight
  verifying e he o ho hkey := hopts ▸ hverify e he o ho hkey
  through hfail hdry o ho := by
    rw [hopts] at hdry
    rw [hunlisted,hqueue,hopts]
    rcases h.through (hfailed hfail) hdry o ho with hlist | ⟨e,he,hkey⟩ | hsettled
    · exact .inl hlist
    · rcases he with he | he
      · exact .inr (.inl ⟨e,.inl he,hkey⟩)
      · obtain rfl := Option.some.inj (hentry.symm.trans he)
        rcases hdone with hphase | hdone
        · exact .inr (.inl ⟨entry,.inr hphase,hkey⟩)
        · exact .inr (.inr (hdone hfail hdry o ho hkey.symm))
    · exact .inr (.inr (hkept o ho hsettled))

theorem Progress.size_eq (h : Progress s m) (hentry : m.phase.entry = some entry) (ho : o ∈ s.source.rows)
    (hkey : o.key = entry.key) : o.size = entry.size := by
  obtain ⟨o',ho',hsize⟩ := h.entries entry (.inr hentry)
  rw [← hkey,Table.lookup_of_mem ho] at ho'
  cases ho'
  exact hsize

theorem progress_consider (h : Progress s m) (hentry : m.phase.entry = some entry) {b : Bool}
    (hsame : b = true → m.opts.force = false ∧ targetHasSameSize s.target entry = true) :
    Progress { s with running := some (m.consider entry b) } (m.consider entry b) := by
  rw [Migration.consider]
  split
  · rename_i heq
    obtain ⟨hforce,hsize⟩ := hsame heq
    refine h.move hentry rfl rfl rfl id (fun _ _ => id) (by simp [Migration.skip,Phase.entry])
      (by simp [Migration.skip,Phase.inFlight]) (.inr fun _ _ o ho hkey => ?_) (by simp [Migration.skip])
    rw [hforce]
    exact .of_sameSize hsize hkey (h.size_eq hentry ho hkey)
  · split
    · rename_i hdry
      exact h.move hentry rfl rfl rfl id (fun _ _ => id) (by simp [Migration.copied,Phase.entry])
        (by simp [Migration.copied,Phase.inFlight]) (.inr fun _ hnot => by simp [hdry] at hnot) (by simp [Migration.copied])
    · exact h.move hentry rfl rfl rfl id (fun _ _ => id) (by simp [Phase.entry]) (by simp [Phase.inFlight]) (.inl rfl) (by simp)

/-- A failed entry leaves a run that will not report success. -/
theorem progress_fail (h : Progress s m) (hentry : m.phase.entry = some entry)
    (hkept : ∀ o ∈ s.source.rows, Settled m.opts.force s.target o → Settled m.opts.force target o) :
    Progress { s with target := target, running := some (m.fail entry) } (m.fail entry) :=
  h.move hentry rfl rfl rfl (by simp [Migration.fail]) hkept (by simp [Migration.fail,Phase.entry])
    (by simp [Migration.fail,Phase.inFlight]) (.inr fun hfail => by simp [Migration.fail] at hfail) (by simp [Migration.fail])

theorem progress_copied (h : Progress s m) (hentry : m.phase.entry = some entry)
    (hkept : ∀ o ∈ s.source.rows, Settled m.opts.force s.target o → Settled m.opts.force target o)
    (hdone : ∀ o ∈ s.source.rows, o.key = entry.key → Settled m.opts.force target o) :
    Progress { s with target := target, running := some (m.copied entry) } (m.copied entry) :=
  h.move hentry rfl rfl rfl id hkept (by simp [Migration.copied,Phase.entry]) (by simp [Migration.copied,Phase.inFlight])
    (.inr fun _ _ => hdone) (by simp [Migration.copied])

/-- Writing the bytes in flight settles their key. -/
theorem Progress.settled_put (h : Progress s m) (hphase : m.phase = .putTarget entry object) (hkeyed : object.key = entry.key) :
    (∀ o ∈ s.source.rows, Settled m.opts.force s.target o → Settled m.opts.force (s.target.upsert object) o) ∧
    ∀ o ∈ s.source.rows, o.key = entry.key → Settled m.opts.force (s.target.upsert object) o := by
  obtain ⟨o',ho',hbody⟩ := h.inFlight object.key object.body (by rw [hphase]; rfl)
  have hsame : ∀ o ∈ s.source.rows, o.key = object.key → object.body = o.body := by
    intro o ho hkey
    rw [← hkey,Table.lookup_of_mem ho] at ho'
    cases ho'
    exact hbody.symm
  exact ⟨fun o ho hsettled => settled_upsert (hsame o ho) (.inr hsettled),
    fun o ho hkey => settled_upsert (hsame o ho) (.inl (hkey.trans hkeyed.symm))⟩

theorem consider_inFlight (m : Migration) (entry : ListEntry) (same : Bool) :
    (m.consider entry same).phase.Sound (m.consider entry same).opts ∧ (m.consider entry same).phase.inFlight = none := by
  rw [Migration.consider]
  split
  · exact ⟨trivial,rfl⟩
  · split
    · exact ⟨trivial,rfl⟩
    · exact ⟨trivial,rfl⟩

/-- A run that carries no bytes. -/
theorem MigrateInv.advance_empty (h : MigrateInv s) (hm : s.running = some m)
    (hcopied : ∀ t ∈ target.rows, (t.key,t.body) ∈ s.history) (hidle : m'.phase.Sound m'.opts ∧ m'.phase.inFlight = none)
    (hprogress : Progress s m → Progress { s with target := target, running := some m' } m') :
    MigrateInv { s with target := target, running := some m' } :=
  h.advance hm hcopied ⟨hidle.1,by simp [hidle.2]⟩ hprogress

theorem MigrateInv.fail (h : MigrateInv s) (hm : s.running = some m) (hentry : m.phase.entry = some entry) :
    MigrateInv { s with running := some (m.fail entry) } :=
  h.advance_empty hm h.copied ⟨trivial,rfl⟩ fun hp => progress_fail hp hentry fun _ _ => id

theorem MigrateInv.consider (h : MigrateInv s) (hm : s.running = some m) (hentry : m.phase.entry = some entry) {b : Bool}
    (hsame : b = true → m.opts.force = false ∧ targetHasSameSize s.target entry = true) :
    MigrateInv { s with running := some (m.consider entry b) } :=
  h.advance_empty hm h.copied (consider_inFlight m entry b) fun hp => progress_consider hp hentry hsame

/-- The object in flight is written, whatever becomes of the call. -/
theorem MigrateInv.putTarget (h : MigrateInv s) (hm : s.running = some m) (hphase : m.phase = .putTarget entry object)
    (hidle : m'.phase.Sound m'.opts ∧ m'.phase.inFlight = none)
    (hprogress : Progress s m →
      (∀ o ∈ s.source.rows, Settled m.opts.force s.target o → Settled m.opts.force (s.target.upsert object) o) →
      (∀ o ∈ s.source.rows, o.key = entry.key → Settled m.opts.force (s.target.upsert object) o) →
      Progress { s with target := s.target.upsert object, running := some m' } m') :
    MigrateInv { s with target := s.target.upsert object, running := some m' } := by
  obtain ⟨hkeyed,hhistory⟩ := h.inFlight m hm
  rw [hphase] at hkeyed hhistory
  refine h.advance_empty hm (fun t ht => ?_) hidle fun hp => ?_
  · rcases mem_upsert ht with rfl | ht
    · exact hhistory _ rfl
    · exact h.copied t ht
  · obtain ⟨hkept,hdone⟩ := hp.settled_put hphase hkeyed
    exact hprogress hp hkept hdone

/-- The next entry is taken off the queue; a forced run considers it at once. -/
theorem MigrateInv.take (h : MigrateInv s) (hm : s.running = some m) {queue : List ListEntry} (hphase : m.phase = .nextEntry)
    (hqueue : m.queue = entry :: queue) :
    let taken := { m with queue := queue }
    MigrateInv { s with running := some (if taken.opts.force then taken.consider entry false
      else { taken with phase := .headTarget entry }) } := by
  by_cases hforce : m.opts.force = true
  · have htaken : MigrateInv { s with running := some { m with queue := queue, phase := .getStream entry } } :=
      h.advance_empty hm h.copied ⟨trivial,rfl⟩ fun hp => progress_take hp hphase hqueue (.inr rfl)
    have hconsider := htaken.consider rfl rfl (b := false) (by simp)
    simpa [hforce,Migration.consider,Migration.copied] using hconsider
  · have htaken : MigrateInv { s with running := some { m with queue := queue, phase := .headTarget entry } } :=
      h.advance_empty hm h.copied ⟨Bool.eq_false_iff.mpr hforce,rfl⟩ fun hp => progress_take hp hphase hqueue (.inl rfl)
    simpa [hforce] using htaken

/-- The bytes that are read are those of the source at that moment. -/
theorem MigrateInv.read (h : MigrateInv s) (hm : s.running = some m) (hentry : m.phase.entry = some entry)
    (hlookup : s.source.lookup entry.key = some o) :
    MigrateInv { s with running := some { m with phase := .headSource entry o.body } } := by
  refine h.advance hm h.copied ⟨trivial,fun p hp => ?_⟩ fun hp =>
    hp.move hentry rfl rfl rfl id (fun _ _ => id) (by simp [Phase.entry]) (fun key body heq => ?_) (.inl rfl) (by simp)
  · cases hp
    obtain ⟨hmem,hkey⟩ := Table.lookup_eq_some.mp hlookup
    exact hkey ▸ h.held o hmem
  · obtain ⟨rfl,rfl⟩ : entry.key = key ∧ o.body = body := by simpa [Phase.inFlight] using heq
    exact ⟨o,hlookup,rfl⟩

/-- What `head` adds to the object leaves its bytes alone. -/
theorem MigrateInv.describe (h : MigrateInv s) (hm : s.running = some m) {body : Bytes} (hphase : m.phase = .headSource entry body)
    (contentType : Option JsString) (metadata : Option (List (JsString × JsString))) :
    MigrateInv { s with running := some { m with phase := .putTarget entry ⟨entry.key,body,contentType,metadata⟩ } } := by
  have hentry : m.phase.entry = some entry := by rw [hphase]; rfl
  refine h.advance hm h.copied ⟨rfl,fun p hp => ?_⟩ fun hp =>
    hp.move hentry rfl rfl rfl id (fun _ _ => id) (by simp [Phase.entry]) (fun key body' heq => ?_) (.inl rfl) (by simp)
  · refine (h.inFlight m hm).2 p ?_
    rw [hphase]
    exact hp
  · refine hp.inFlight key body' ?_
    rw [hphase]
    exact heq

/-- A write that succeeds is verified, or counts at once. -/
theorem MigrateInv.written (h : MigrateInv s) (hm : s.running = some m) (hphase : m.phase = .putTarget entry object) :
    MigrateInv { s with
      target := s.target.upsert object, running :=
      some (if m.opts.verify then { m with phase := .verify entry } else m.copied entry) } := by
  have hentry : m.phase.entry = some entry := by rw [hphase]; rfl
  by_cases hverify : m.opts.verify = true
  · simp only [hverify,if_true]
    refine h.putTarget hm hphase ⟨trivial,rfl⟩ fun hp hkept hdone =>
      hp.move hentry rfl rfl rfl id hkept (by simp [Phase.entry]) (by simp [Phase.inFlight]) (.inl rfl) fun e he => ?_
    obtain rfl : entry = e := by simpa using he
    exact hdone
  · simp only [hverify]
    exact h.putTarget hm hphase ⟨trivial,rfl⟩ fun hp hkept hdone => progress_copied hp hentry hkept hdone

theorem run_headTarget {ok : Bool} (h : MigrateInv s) (hm : s.running = some m)
    (hstep : runStep s m (.headTarget ok) = some t) : MigrateInv t := by
  rw [runStep] at hstep
  split at hstep
  · rename_i entry hphase
    cases hstep
    cases ok with
    | false => exact h.leave hm
    | true =>
      have hforce : m.opts.force = false := by simpa [hphase,Phase.Sound] using (h.inFlight m hm).1
      exact h.consider hm (by rw [hphase]; rfl) fun hsame => ⟨hforce,hsame⟩
  · cases hstep

theorem run_getStream {ok : Bool} (h : MigrateInv s) (hm : s.running = some m)
    (hstep : runStep s m (.getStream ok) = some t) : MigrateInv t := by
  rw [runStep] at hstep
  split at hstep
  · rename_i entry hphase
    have hentry : m.phase.entry = some entry := by rw [hphase]; rfl
    split at hstep
    · rename_i o ho
      cases hstep
      have hlookup : s.source.lookup entry.key = some o := by
        split at ho
        · exact ho
        · simp at ho
      exact h.read hm hentry hlookup
    · cases hstep
      exact h.fail hm hentry
  · cases hstep

theorem run_putTarget {outcome : PutOutcome} (h : MigrateInv s) (hm : s.running = some m)
    (hstep : runStep s m (.putTarget outcome) = some t) :
    MigrateInv t := by
  rw [runStep] at hstep
  split at hstep
  · rename_i entry object hphase
    have hentry : m.phase.entry = some entry := by rw [hphase]; rfl
    cases outcome with
    | written =>
      cases hstep
      exact h.written hm hphase
    | failed =>
      cases hstep
      exact h.fail hm hentry
    | failedAfterWrite =>
      cases hstep
      exact h.putTarget hm hphase ⟨trivial,rfl⟩ fun hp hkept _ => progress_fail hp hentry hkept
  · cases hstep

theorem run_verify {ok : Bool} (h : MigrateInv s) (hm : s.running = some m)
    (hstep : runStep s m (.verify ok) = some t) : MigrateInv t := by
  rw [runStep] at hstep
  split at hstep
  · rename_i entry hphase
    cases hstep
    have hentry : m.phase.entry = some entry := by rw [hphase]; rfl
    split
    · exact h.advance_empty hm h.copied ⟨trivial,rfl⟩ fun hp =>
        progress_copied hp hentry (fun _ _ => id) (hp.verifying entry hphase)
    · exact h.fail hm hentry
  · cases hstep

theorem run_step {a : MigrateAction} (h : MigrateInv s) (hm : s.running = some m) (hstep : runStep s m a = some t) : MigrateInv t := by
  cases a with
  | put | start => simp [runStep] at hstep
  | list key =>
    obtain ⟨o,ho,rfl⟩ := Option.map_eq_some_iff.mp hstep
    exact h.advance hm h.copied (h.inFlight m hm) fun hp => progress_list hp ho
  | next =>
    rw [runStep] at hstep
    split at hstep
    · rename_i entry queue hphase hqueue
      cases hstep
      exact h.take hm hphase hqueue
    · cases hstep
  | headTarget ok => exact run_headTarget h hm hstep
  | getStream ok => exact run_getStream h hm hstep
  | headSource ok =>
    rw [runStep] at hstep
    split at hstep
    · rename_i entry body hphase
      cases hstep
      exact h.describe hm hphase _ _
    · cases hstep
  | putTarget outcome => exact run_putTarget h hm hstep
  | verify ok => exact run_verify h hm hstep
  | finish =>
    rw [runStep] at hstep
    split at hstep
    · rename_i hend
      cases hstep
      exact h.finish hm hend.1 hend.2.1 hend.2.2
    · cases hstep
  | interrupt =>
    cases hstep
    exact h.leave hm

theorem migrate_step {a : MigrateAction} (h : MigrateInv s) (hstep : migrateStep s a = some t) : MigrateInv t := by
  unfold migrateStep at hstep
  split at hstep
  · cases hstep
    exact h.put _
  · cases hstep
    exact h.start _
  · rename_i hm
    exact run_step h hm hstep
  · simp at hstep

end Steps

section Runs
variable {source : Bucket} {s : MigrateState} {opts : MigrateOptions} {summary : MigrateSummary}

/-- After a run without failures, during and after which the source has not changed, the
target has for every object of the source one of the same size that the source has held
under the key; it is the same one where no other content of that size was ever held. -/
theorem migrated_same_size (hrun : Run migrateStep (fun _ _ => True) (.initial source) s) (hfinished : s.finished = some (opts,summary))
    (hfailed : summary.failed = 0) (hdry : opts.dryRun = false) (hquiet : s.touched = false) :
    ∀ o ∈ s.source.rows, ∃ t, s.target.lookup o.key = some t ∧ t.size = o.size ∧ (o.key,t.body) ∈ s.history ∧
      ((∀ body, (o.key,body) ∈ s.history → body.length = o.size → body = o.body) → t.body = o.body) := by
  have hinv : MigrateInv s := hrun.invariant (fun _ _ _ h _ hstep => migrate_step h hstep) (migrateInv_initial source)
  intro o ho
  obtain ⟨t,ht,hsize,-⟩ := (hinv.finished hquiet opts summary hfinished).2 hfailed hdry o ho
  obtain ⟨hmem,hkey⟩ := Table.lookup_eq_some.mp ht
  have hheld : (o.key,t.body) ∈ s.history := hkey ▸ hinv.copied t hmem
  exact ⟨t,ht,hsize,hheld,fun hunique => hunique t.body hheld hsize⟩

/-- A forced run copies everything again. -/
theorem forced_migration_identical (hrun : Run migrateStep (fun _ _ => True) (.initial source) s)
    (hfinished : s.finished = some (opts,summary)) (hfailed : summary.failed = 0) (hdry : opts.dryRun = false)
    (hforce : opts.force = true) (hquiet : s.touched = false) :
    ∀ o ∈ s.source.rows, ∃ t, s.target.lookup o.key = some t ∧ t.body = o.body := by
  have hinv : MigrateInv s := hrun.invariant (fun _ _ _ h _ hstep => migrate_step h hstep) (migrateInv_initial source)
  intro o ho
  obtain ⟨t,ht,-,hbody⟩ := (hinv.finished hquiet opts summary hfinished).2 hfailed hdry o ho
  exact ⟨t,ht,hbody hforce⟩

def someObject (body : Bytes) : StorageObject := ⟨js "k",body,none,none⟩

/-- One run over one object, with nothing else going on. -/
def copyActions : List MigrateAction :=
  [.start .default,.list (js "k"),.next,.headTarget true,.getStream true,.headSource true,.putTarget .written,.finish]

def skipActions : List MigrateAction := [.start .default,.list (js "k"),.next,.headTarget true,.finish]

/-- What the example runs are judged by. -/
structure MigrateView where
  finished : Option (MigrateOptions × MigrateSummary)
  touched : Bool
  source : List StorageObject
  target : List StorageObject
  deriving DecidableEq

def migrateView (s : MigrateState) : MigrateView := ⟨s.finished,s.touched,s.source.rows,s.target.rows⟩

theorem migrated_one_object : ∃ s t, Run migrateStep (fun _ _ => True) (.initial .empty) s ∧ s.source.rows = [someObject [1,2,3]] ∧
    s.target.lookup (js "k") = some t ∧ t.size = 3 := by
  have htrace : (runActions migrateStep (fun _ _ => True) (.initial .empty) (.put (someObject [1,2,3]) :: copyActions)).map migrateView =
      some ⟨some (.default,⟨1,0,0,3,[]⟩),false,[someObject [1,2,3]],[someObject [1,2,3]]⟩ := by
    decide +kernel
  obtain ⟨s,hs,hview⟩ := Option.map_eq_some_iff.mp htrace
  have hrun := Run.of_actions hs
  have hsource : s.source.rows = [someObject [1,2,3]] := congrArg MigrateView.source hview
  obtain ⟨t,ht,hsize,-⟩ := migrated_same_size hrun (congrArg MigrateView.finished hview) rfl rfl
    (congrArg MigrateView.touched hview) (someObject [1,2,3]) (by rw [hsource]; exact List.mem_cons_self)
  exact ⟨s,t,hrun,hsource,ht,hsize⟩

/-- An object is copied, overwritten with one of the same size, and skipped by the next run. -/
theorem overwritten_object_skipped : ∃ s o t summary, Run migrateStep (fun _ _ => True) (.initial .empty) s ∧
    s.finished = some (.default,summary) ∧ summary.failed = 0 ∧ s.touched = false ∧ o ∈ s.source.rows ∧
    s.target.lookup o.key = some t ∧ t.body ≠ o.body := by
  have htrace : (runActions migrateStep (fun _ _ => True) (.initial .empty)
      (.put (someObject [1,2,3]) :: copyActions ++ .put (someObject [7,8,9]) :: skipActions)).map migrateView =
      some ⟨some (.default,⟨0,1,0,0,[]⟩),false,[someObject [7,8,9]],[someObject [1,2,3]]⟩ := by
    decide +kernel
  obtain ⟨s,hs,hview⟩ := Option.map_eq_some_iff.mp htrace
  have hsource : s.source.rows = [someObject [7,8,9]] := congrArg MigrateView.source hview
  have htarget : s.target.rows = [someObject [1,2,3]] := congrArg MigrateView.target hview
  refine ⟨s,someObject [7,8,9],someObject [1,2,3],_,Run.of_actions hs,congrArg MigrateView.finished hview,rfl,
    congrArg MigrateView.touched hview,by rw [hsource]; exact List.mem_cons_self,?_,by decide⟩
  exact Table.lookup_eq_some.mpr ⟨by rw [htarget]; exact List.mem_cons_self,rfl⟩

end Runs
end JustMail.Storage
