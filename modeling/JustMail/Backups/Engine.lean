import JustMail.Backups.Plan
import JustMail.Foundation.KeyedTable

/-! `backups/backup-engine.service.ts`: the runs of the due schedules, and the pruning by age that follows each. -/
namespace JustMail.Backups
open JustMail.Foundation

section Model

inductive BackupStatus where
  | running
  | completed
  | failed
  deriving DecidableEq

/-- A row of `backups`; `startedAt` is in microseconds. -/
structure Backup (Org : Type) where
  id : JsString
  orgId : Org
  status : BackupStatus
  snapshotRef : Option JsString
  startedAt : Int
  deriving DecidableEq

structure World (Org : Type) where
  schedules : Table (Prod.fst : Org × Schedule → Org)
  backups : Table (Backup.id : Backup Org → JsString)
  objects : List (Org × JsString)

/-- What a run meets: the id and the time that its row gets, and the steps that fail. -/
structure RunEnv where
  id : JsString
  startedAt : Int
  insertFails : Bool
  dumpFails : Bool
  putFails : Bool
  completeFails : Bool
  failFails : Bool

/-- What a pruning meets. The rows come in no particular order. -/
structure PruneEnv (Org : Type) where
  now : Instant
  selectFails : Bool
  order : List (Backup Org) → List (Backup Org)
  removeFails : JsString → Bool
  deleteFails : JsString → Bool
  order_perm (rows : List (Backup Org)) : (order rows).Perm rows

structure TickEnv (Org : Type) where
  now : Instant
  selectFails : Bool
  order : List (Org × Schedule) → List (Org × Schedule)
  run : Org → RunEnv
  updateFails : Org → Bool
  prune : Org → PruneEnv Org
  order_perm (rows : List (Org × Schedule)) : (order rows).Perm rows

variable {Org : Type}

def relKey (id : JsString) : JsString := js "backups/" ++ id ++ js ".dump"

def RunEnv.row (e : RunEnv) (orgId : Org) : Backup Org := ⟨e.id,orgId,.running,none,e.startedAt⟩

/-- `UPDATE backups SET .. WHERE id = $1`. -/
def World.updateBackup (w : World Org) (id : JsString) (f : Backup Org → Backup Org) (hf : ∀ b, (f b).id = b.id) : World Org :=
  { w with backups := w.backups.updateWhere (·.id == id) f hf }

/-- The world after the body of the `try`, and whether it has come through. -/
def World.attempt (w : World Org) (orgId : Org) (e : RunEnv) : World Org × Bool :=
  if e.dumpFails || e.putFails then (w,false)
  else
    let stored : World Org := { w with objects := (orgId,relKey e.id) :: w.objects }
    if e.completeFails then (stored,false)
    else (stored.updateBackup e.id (fun b => { b with status := .completed, snapshotRef := some (relKey e.id) }) fun _ => rfl,true)

/-- Run one backup now. Nothing is returned where it throws. -/
def World.run (w : World Org) (orgId : Org) (e : RunEnv) : World Org × Option JsString :=
  if h : e.insertFails = false ∧ w.backups.lookup (e.row orgId).id = none then
    match World.attempt { w with backups := w.backups.insert (e.row orgId) h.2 } orgId e with
    | (w',true) => (w',some e.id)
    | (w',false) =>
      if e.failFails then (w',none) else (w'.updateBackup e.id (fun b => { b with status := .failed }) fun _ => rfl,none)
  else (w,none)

variable [DecidableEq Org]

/-- `started_at < $2`, the cutoff being in milliseconds. -/
def Backup.outdated (b : Backup Org) (cutoff : Int) : Bool := decide (b.startedAt < cutoff*1000)

/-- The loop of `prune`. A row that cannot be deleted ends it. -/
def pruneRows (orgId : Org) (e : PruneEnv Org) : List (Backup Org) → World Org → World Org
  | [],w => w
  | r :: rest,w =>
    let objects := match r.snapshotRef with
      | some ref => if e.removeFails r.id then w.objects else w.objects.filter (· ≠ (orgId,ref))
      | none => w.objects
    if e.deleteFails r.id then { w with objects := objects }
    else pruneRows orgId e rest { w with objects := objects, backups := w.backups.deleteWhere (·.id == r.id) }

def World.prune (w : World Org) (orgId : Org) (retentionDays : Nat) (e : PruneEnv Org) : World Org :=
  match retentionCutoff e.now retentionDays with
  | none => w
  | some cutoff =>
    if e.selectFails then w
    else pruneRows orgId e (e.order (w.backups.rows.filter fun b => b.orgId = orgId && b.outdated cutoff && b.status != .running)) w

/-- The run of a due schedule and the UPDATE that follows it, and whether that has gone through. -/
def World.fire (w : World Org) (e : TickEnv Org) (orgId : Org) (s : Schedule) : World Org × Bool :=
  let ran := (w.run orgId (e.run orgId)).1
  match nextRun e.now s.frequency with
  | none => (ran,false)
  | some next =>
    if e.updateFails orgId then (ran,false)
    else ({ ran with schedules := ran.schedules.updateWhere (·.1 = orgId) (fun r => (r.1,r.2.fired e.now next)) fun _ => rfl },true)

/-- The loop of `runDue`. An UPDATE that fails ends it. -/
def runSchedules (e : TickEnv Org) : List (Org × Schedule) → World Org → World Org
  | [],w => w
  | (orgId,s) :: rest,w =>
    if isDue s e.now then
      match w.fire e orgId s with
      | (w',true) => runSchedules e rest (w'.prune orgId s.retentionDays (e.prune orgId))
      | (w',false) => w'
    else runSchedules e rest w

def World.scheduled (w : World Org) (e : TickEnv Org) : List (Org × Schedule) :=
  e.order (w.schedules.rows.filter (·.2.enabled))

/-- Execute every schedule whose next run is due, then prune old artifacts. -/
def World.runDue (w : World Org) (e : TickEnv Org) : World Org :=
  if e.selectFails then w else runSchedules e (w.scheduled e) w

end Model

section Effects
variable {Org : Type} {w w' : World Org} {b : Backup Org} {orgId : Org}

structure Good (w : World Org) (b : Backup Org) : Prop where
  mem : b ∈ w.backups.rows
  completed : b.status = .completed
  stored : ∃ ref ∈ b.snapshotRef, (b.orgId,ref) ∈ w.objects

instance [DecidableEq Org] (w : World Org) (b : Backup Org) : Decidable (Good w b) :=
  decidable_of_iff (b ∈ w.backups.rows ∧ b.status = .completed ∧ ∃ ref ∈ b.snapshotRef, (b.orgId,ref) ∈ w.objects)
    ⟨fun ⟨hmem,hcompleted,hstored⟩ => ⟨hmem,hcompleted,hstored⟩,fun ⟨hmem,hcompleted,hstored⟩ => ⟨hmem,hcompleted,hstored⟩⟩

/-- A search through the rows decides whether there is a good backup of some kind. -/
instance [DecidableEq Org] (w : World Org) (P : Backup Org → Prop) [DecidablePred P] : Decidable (∃ b, Good w b ∧ P b) :=
  decidable_of_iff (∃ b ∈ w.backups.rows, Good w b ∧ P b)
    ⟨fun ⟨b,_,hb⟩ => ⟨b,hb⟩,fun ⟨b,hb⟩ => ⟨b,hb.1.mem,hb⟩⟩

/-- Every row refers to the object of its own id. -/
def Keyed (w : World Org) : Prop := ∀ b ∈ w.backups.rows, ∀ ref ∈ b.snapshotRef, ref = relKey b.id

theorem relKey_inj {id id' : JsString} (h : relKey id = relKey id') : id = id' :=
  List.append_cancel_left (List.append_cancel_right h)

/-- All that a run changes: one more row, with a reference to its own object at most, and one more object. -/
structure RunEffect (w w' : World Org) : Prop where
  schedules : w'.schedules = w.schedules
  objects : w.objects ⊆ w'.objects
  backups : w'.backups.rows = w.backups.rows ∨
    ∃ b, w'.backups.rows = w.backups.rows ++ [b] ∧ ∀ ref ∈ b.snapshotRef, ref = relKey b.id

theorem RunEffect.good (h : RunEffect w w') (hb : Good w b) : Good w' b := by
  obtain ⟨ref,href,hstored⟩ := hb.stored
  refine ⟨?_,hb.completed,ref,href,h.objects hstored⟩
  rcases h.backups with hsame | ⟨b',happend,-⟩
  · exact hsame ▸ hb.mem
  · exact happend ▸ List.mem_append_left _ hb.mem

theorem RunEffect.keyed (h : RunEffect w w') (hw : Keyed w) : Keyed w' := by
  intro b hb
  rcases h.backups with hsame | ⟨b',happend,hkeyed⟩
  · exact hw b (hsame ▸ hb)
  · rcases List.mem_append.mp (happend ▸ hb) with hold | hnew
    · exact hw b hold
    · exact List.mem_singleton.mp hnew ▸ hkeyed

/-- The row, changed by one UPDATE or none. -/
theorem runEffect_update (w : World Org) (orgId : Org) (e : RunEnv) (h : w.backups.lookup (e.row orgId).id = none)
    {objects : List (Org × JsString)} (hobjects : w.objects ⊆ objects) {f : Backup Org → Backup Org} (hf : ∀ b, (f b).id = b.id)
    (hkeyed : ∀ ref ∈ (f (e.row orgId)).snapshotRef, ref = relKey e.id) :
    RunEffect w (World.updateBackup ⟨w.schedules,w.backups.insert (e.row orgId) h,objects⟩ e.id f hf) := by
  refine ⟨rfl,hobjects,.inr ⟨f (e.row orgId),Table.rows_updateWhere_insert _ _ h (fun _ => beq_iff_eq) f hf,?_⟩⟩
  rw [hf]
  exact hkeyed

theorem runEffect_run (w : World Org) (orgId : Org) (e : RunEnv) : RunEffect w (w.run orgId e).1 := by
  unfold World.run
  split
  · rename_i h
    unfold World.attempt
    by_cases hstore : (e.dumpFails || e.putFails) = true
    · rw [if_pos hstore]
      cases e.failFails with
      | true => exact ⟨rfl,List.Subset.refl _,.inr ⟨_,rfl,fun _ href => by simp [RunEnv.row] at href⟩⟩
      | false => exact runEffect_update w orgId e h.2 (List.Subset.refl _) _ fun _ href => by simp [RunEnv.row] at href
    · rw [if_neg hstore]
      cases e.completeFails with
      | false => exact runEffect_update w orgId e h.2 (List.subset_cons_self _ _) _ fun _ href => by simpa using href.symm
      | true =>
        cases e.failFails with
        | true => exact ⟨rfl,List.subset_cons_self _ _,.inr ⟨_,rfl,fun _ href => by simp [RunEnv.row] at href⟩⟩
        | false => exact runEffect_update w orgId e h.2 (List.subset_cons_self _ _) _ fun _ href => by simp [RunEnv.row] at href
  · exact ⟨rfl,List.Subset.refl _,.inl rfl⟩

theorem RunEffect.trans {w'' : World Org} (h : RunEffect w w') (hschedules : w''.backups = w'.backups ∧ w''.objects = w'.objects) :
    (∀ b, Good w b → Good w'' b) ∧ (Keyed w → Keyed w'') := by
  obtain ⟨hbackups,hobjects⟩ := hschedules
  refine ⟨fun b hb => ?_,fun hw => ?_⟩
  · obtain ⟨hmem,hcompleted,hstored⟩ := h.good hb
    exact ⟨hbackups ▸ hmem,hcompleted,hobjects ▸ hstored⟩
  · rw [Keyed,hbackups]
    exact h.keyed hw

variable [DecidableEq Org]

theorem fire_effect (w : World Org) (e : TickEnv Org) (orgId : Org) (s : Schedule) :
    (∀ b, Good w b → Good (w.fire e orgId s).1 b) ∧ (Keyed w → Keyed (w.fire e orgId s).1) := by
  refine (runEffect_run w orgId (e.run orgId)).trans ?_
  unfold World.fire
  split
  · exact ⟨rfl,rfl⟩
  · split <;> exact ⟨rfl,rfl⟩

theorem keyed_pruneRows (e : PruneEnv Org) {rows : List (Backup Org)} (hw : Keyed w) : Keyed (pruneRows orgId e rows w) := by
  induction rows generalizing w with
  | nil => exact hw
  | cons r rest ih =>
    unfold pruneRows
    dsimp only
    split
    · exact hw
    · exact ih fun b hb => hw b (List.mem_filter.mp hb).1

/-- Rows of other ids take nothing with them that a backup needs. -/
theorem good_pruneRows (e : PruneEnv Org) {rows : List (Backup Org)} (hb : Good w b) (hkey : ∀ ref ∈ b.snapshotRef, ref = relKey b.id)
    (hrows : ∀ r ∈ rows, r.id ≠ b.id ∧ ∀ ref ∈ r.snapshotRef, ref = relKey r.id) : Good (pruneRows orgId e rows w) b := by
  induction rows generalizing w with
  | nil => exact hb
  | cons r rest ih =>
    obtain ⟨hid,href⟩ := hrows r List.mem_cons_self
    obtain ⟨key,hsome,hstored⟩ := hb.stored
    have hkept (objects : List (Org × JsString)) (h : objects = match r.snapshotRef with
        | some ref => if e.removeFails r.id then w.objects else w.objects.filter (· ≠ (orgId,ref))
        | none => w.objects) : (b.orgId,key) ∈ objects := by
      subst h
      split
      · rename_i ref hr
        split
        · exact hstored
        · refine List.mem_filter.mpr ⟨hstored,decide_eq_true fun hsame => hid ?_⟩
          rw [hkey key hsome,href ref hr] at hsame
          exact (relKey_inj (Prod.ext_iff.mp hsame).2).symm
      · exact hstored
    unfold pruneRows
    dsimp only
    split
    · exact ⟨hb.mem,hb.completed,key,hsome,hkept _ rfl⟩
    · refine ih ⟨List.mem_filter.mpr ⟨hb.mem,?_⟩,hb.completed,key,hsome,hkept _ rfl⟩ fun r' hr' => hrows r' (List.mem_cons_of_mem r hr')
      simpa using Ne.symm hid

/-- The backup has started within the retention. -/
def Recent (b : Backup Org) (retentionDays : Nat) (now : Instant) : Prop :=
  ∀ cutoff ∈ retentionCutoff now retentionDays, b.outdated cutoff = false

instance (b : Backup Org) (retentionDays : Nat) (now : Instant) : Decidable (Recent b retentionDays now) :=
  inferInstanceAs (Decidable (∀ cutoff ∈ retentionCutoff now retentionDays, _))

theorem keyed_prune (retentionDays : Nat) (e : PruneEnv Org) (hw : Keyed w) : Keyed (w.prune orgId retentionDays e) := by
  unfold World.prune
  split
  · exact hw
  · split
    · exact hw
    · exact keyed_pruneRows e hw

theorem good_prune {retentionDays : Nat} {e : PruneEnv Org} (hw : Keyed w) (hb : Good w b)
    (hrecent : b.orgId = orgId → Recent b retentionDays e.now) : Good (w.prune orgId retentionDays e) b := by
  unfold World.prune
  split
  · exact hb
  · rename_i cutoff hcutoff
    split
    · exact hb
    · refine good_pruneRows e hb (hw b hb.mem) fun r hr => ?_
      obtain ⟨hmem,hr⟩ := List.mem_filter.mp ((e.order_perm _).mem_iff.mp hr)
      refine ⟨fun hid => ?_,hw r hmem⟩
      obtain rfl := Table.eq_of_key hmem hb.mem hid
      simp only [Bool.and_eq_true,decide_eq_true_eq] at hr
      have := hrecent hr.1.1 cutoff hcutoff
      rw [hr.1.2] at this
      cases this

theorem schedules_pruneRows (e : PruneEnv Org) (rows : List (Backup Org)) (w : World Org) :
    (pruneRows orgId e rows w).schedules = w.schedules := by
  induction rows generalizing w with
  | nil => rfl
  | cons r rest ih =>
    unfold pruneRows
    dsimp only
    split
    · rfl
    · exact ih _

theorem schedules_prune (retentionDays : Nat) (e : PruneEnv Org) : (w.prune orgId retentionDays e).schedules = w.schedules := by
  unfold World.prune
  split
  · rfl
  · split
    · rfl
    · exact schedules_pruneRows e _ w

end Effects

section Loop
variable {Org : Type} [DecidableEq Org] {w w' : World Org} {b : Backup Org} {org : Org} {e : TickEnv Org}

/-- `P` holds of the world that each pruning of the loop finds. -/
def AtPrunings (P : Org → Schedule → World Org → Prop) (e : TickEnv Org) : List (Org × Schedule) → World Org → Prop
  | [],_ => True
  | (orgId,s) :: rest,w =>
    if isDue s e.now then
      ((w.fire e orgId s).2 = true → P orgId s (w.fire e orgId s).1 ∧
        AtPrunings P e rest ((w.fire e orgId s).1.prune orgId s.retentionDays (e.prune orgId)))
    else AtPrunings P e rest w

instance decidableAtPrunings (P : Org → Schedule → World Org → Prop) [∀ o s w, Decidable (P o s w)] (e : TickEnv Org) :
    (rows : List (Org × Schedule)) → (w : World Org) → Decidable (AtPrunings P e rows w)
  | [],_ => isTrue trivial
  | (orgId,s) :: rest,w =>
    have := decidableAtPrunings P e rest
    inferInstanceAs (Decidable (if isDue s e.now then (_ = true → P orgId s _ ∧ AtPrunings P e rest _) else AtPrunings P e rest w))

theorem runSchedules_cons (orgId : Org) (s : Schedule) (rest : List (Org × Schedule)) :
    runSchedules e ((orgId,s) :: rest) w =
      if isDue s e.now then
        if (w.fire e orgId s).2 then runSchedules e rest ((w.fire e orgId s).1.prune orgId s.retentionDays (e.prune orgId))
        else (w.fire e orgId s).1
      else runSchedules e rest w := by
  rw [runSchedules]
  split
  · split
    · rename_i h
      simp [h]
    · rename_i h
      simp [h]
  · rfl

/-- What holds with the keys through every run and every pruning holds through the loop. -/
theorem runSchedules_invariant (inv : World Org → Prop) {P : Org → Schedule → World Org → Prop} {rows : List (Org × Schedule)}
    (hfire : ∀ w, inv w → ∀ r ∈ rows, isDue r.2 e.now = true → inv (w.fire e r.1 r.2).1)
    (hprune : ∀ w, inv w → Keyed w → ∀ r ∈ rows, isDue r.2 e.now = true → P r.1 r.2 w → inv (w.prune r.1 r.2.retentionDays (e.prune r.1)))
    (hw : Keyed w) (hinv : inv w) (hall : AtPrunings P e rows w) :
    Keyed (runSchedules e rows w) ∧ inv (runSchedules e rows w) := by
  induction rows generalizing w with
  | nil => exact ⟨hw,hinv⟩
  | cons r rest ih =>
    obtain ⟨orgId,s⟩ := r
    have hrest (w : World Org) := ih (w := w) (fun w hw r hr => hfire w hw r (List.mem_cons_of_mem _ hr))
      (fun w hw hk r hr => hprune w hw hk r (List.mem_cons_of_mem _ hr))
    rw [runSchedules_cons]
    rw [AtPrunings] at hall
    by_cases hdue : isDue s e.now = true
    · rw [if_pos hdue] at hall ⊢
      have hkeyed := (fire_effect w e orgId s).2 hw
      have hfired := hfire w hinv (orgId,s) List.mem_cons_self hdue
      by_cases hon : (w.fire e orgId s).2 = true
      · rw [if_pos hon]
        obtain ⟨hhere,hlater⟩ := hall hon
        exact hrest _ (keyed_prune _ _ hkeyed) (hprune _ hfired hkeyed (orgId,s) List.mem_cons_self hdue hhere) hlater
      · rw [if_neg hon]
        exact ⟨hkeyed,hfired⟩
    · rw [if_neg hdue] at hall ⊢
      exact hrest w hw hinv hall

theorem atPrunings_true {P : Org → Schedule → World Org → Prop} (hP : ∀ o s w, P o s w) (e : TickEnv Org)
    (rows : List (Org × Schedule)) (w : World Org) : AtPrunings P e rows w := by
  induction rows generalizing w with
  | nil => trivial
  | cons r rest ih =>
    rw [AtPrunings]
    split
    · exact fun _ => ⟨hP _ _ _,ih _⟩
    · exact ih w

/-- A tick takes no backup that has started within the retention. -/
theorem good_runDue (hw : Keyed w) (hb : Good w b)
    (hrecent : ∀ s, (b.orgId,s) ∈ w.schedules.rows → isDue s e.now = true → Recent b s.retentionDays (e.prune b.orgId).now) :
    Good (w.runDue e) b := by
  unfold World.runDue
  split
  · exact hb
  · have hrow (r : Org × Schedule) (hr : r ∈ w.scheduled e) : r ∈ w.schedules.rows :=
      (List.mem_filter.mp ((e.order_perm _).mem_iff.mp hr)).1
    refine (runSchedules_invariant (Good · b) (P := fun _ _ _ => True) (fun w hb r _ _ => (fire_effect w e r.1 r.2).1 b hb)
      (fun w hb hk r hr hdue _ => good_prune hk hb fun horg => ?_) hw hb (atPrunings_true (fun _ _ _ => trivial) e _ w)).2
    obtain ⟨orgId,s⟩ := r
    obtain rfl : b.orgId = orgId := horg
    exact hrecent s (hrow _ hr) hdue

theorem keyed_runDue (hw : Keyed w) : Keyed (w.runDue e) := by
  unfold World.runDue
  split
  · exact hw
  · exact (runSchedules_invariant (fun _ => True) (fun _ _ _ _ _ => trivial) (fun _ _ _ _ _ _ _ => trivial) hw trivial
      (atPrunings_true (fun _ _ _ => trivial) e _ w)).1

/-- Of the rows that the loop has, each moves on by one tick. -/
theorem schedules_runSchedules {rows : List (Org × Schedule)} (hkeys : (rows.map Prod.fst).Nodup)
    (hrows : ∀ r ∈ rows, w.schedules.lookup r.1 = some r) (hupdate : ∀ o, e.updateFails o = false)
    (hnext : ∀ r ∈ rows, ∃ next, nextRun e.now r.2.frequency = some next) (org : Org) :
    (runSchedules e rows w).schedules.lookup org =
      (w.schedules.lookup org).map fun r => if r ∈ rows then (r.1,(Cadence.tick ⟨r.2,[]⟩ e.now).schedule) else r := by
  induction rows generalizing w with
  | nil => simp [runSchedules]
  | cons r rest ih =>
    obtain ⟨orgId,s⟩ := r
    obtain ⟨hnotin,hkeys⟩ := List.nodup_cons.mp hkeys
    obtain ⟨next,hnext'⟩ := hnext (orgId,s) List.mem_cons_self
    have hother (r : Org × Schedule) (hr : r ∈ rest) : r.1 ≠ orgId := fun h => hnotin (List.mem_map.mpr ⟨r,hr,h⟩)
    rw [runSchedules_cons]
    by_cases hdue : isDue s e.now = true
    · have hfire : (w.fire e orgId s).2 = true ∧ ((w.fire e orgId s).1.prune orgId s.retentionDays (e.prune orgId)).schedules =
          w.schedules.updateWhere (·.1 = orgId) (fun r => (r.1,r.2.fired e.now next)) fun _ => rfl := by
        rw [schedules_prune]
        unfold World.fire
        simp only [hnext',hupdate,Bool.false_eq_true,if_false,(runEffect_run w orgId (e.run orgId)).schedules,and_self]
      rw [if_pos hdue,if_pos hfire.1,ih hkeys (fun r hr => ?_) fun r hr => hnext r (List.mem_cons_of_mem _ hr)]
      · rw [hfire.2,Table.lookup_updateWhere,Option.map_map]
        refine Option.map_congr fun r hr => ?_
        by_cases hr' : r.1 = orgId
        · -- the row of the organisation, which the rest of the loop does not have
          obtain rfl : r = (orgId,s) := by
            have := hrows (orgId,s) List.mem_cons_self
            rw [Table.key_of_lookup hr] at hr'
            exact Option.some.inj (hr.symm.trans (hr' ▸ this))
          have hgone : (orgId,s.fired e.now next) ∉ rest := fun h => hother _ h rfl
          simp [hgone,Cadence.tick,hdue,Schedule.advance,hnext']
        · have hne : r ≠ (orgId,s) := fun h => hr' (h ▸ rfl)
          simp [hr',hne]
      · rw [hfire.2,Table.lookup_updateWhere,hrows r (List.mem_cons_of_mem _ hr)]
        simp [hother r hr]
    · rw [if_neg hdue,ih hkeys (fun r hr => hrows r (List.mem_cons_of_mem _ hr)) fun r hr => hnext r (List.mem_cons_of_mem _ hr)]
      refine Option.map_congr fun r _ => ?_
      by_cases hr : r = (orgId,s)
      · subst hr
        have hgone : (orgId,s) ∉ rest := fun h => hother _ h rfl
        simp [hgone,Cadence.tick,hdue]
      · simp [hr]

/-- Where no statement fails and every next time is a date, `runDue` is one tick of every schedule. -/
theorem schedules_runDue (hselect : e.selectFails = false) (hupdate : ∀ o, e.updateFails o = false)
    (hnext : ∀ f, ∃ next, nextRun e.now f = some next) (org : Org) :
    (w.runDue e).schedules.lookup org = (w.schedules.lookup org).map fun r => (r.1,(Cadence.tick ⟨r.2,[]⟩ e.now).schedule) := by
  have hperm := e.order_perm (w.schedules.rows.filter (·.2.enabled))
  have hmem (r : Org × Schedule) : r ∈ w.scheduled e ↔ r ∈ w.schedules.rows ∧ r.2.enabled = true := by
    rw [World.scheduled,hperm.mem_iff,List.mem_filter]
  have hkeys : ((w.scheduled e).map Prod.fst).Nodup :=
    (hperm.map Prod.fst).nodup_iff.mpr (w.schedules.unique.sublist (List.filter_sublist.map _))
  rw [World.runDue,if_neg (by rw [hselect]; exact Bool.false_ne_true),
    schedules_runSchedules hkeys (fun r hr => Table.lookup_of_mem ((hmem r).mp hr).1) hupdate (fun r _ => hnext r.2.frequency)]
  refine Option.map_congr fun r hr => ?_
  by_cases hon : r.2.enabled = true
  · rw [if_pos ((hmem r).mpr ⟨(Table.lookup_eq_some.mp hr).1,hon⟩)]
  · rw [if_neg fun h => hon ((hmem r).mp h).2]
    simp [Cadence.tick,isDue,hon]

/-- The organisation has a completed backup whose object exists. -/
def HasGood (w : World Org) (org : Org) : Prop := ∃ b, Good w b ∧ b.orgId = org

instance (w : World Org) (org : Org) : Decidable (HasGood w org) := inferInstanceAs (Decidable (∃ b, Good w b ∧ b.orgId = org))

/-- Whenever the tick prunes the organisation, one of its good backups has started within the retention. -/
def Sheltered (org : Org) (w : World Org) (e : TickEnv Org) : Prop :=
  AtPrunings (fun orgId s w => orgId = org → ∃ b, Good w b ∧ b.orgId = org ∧ Recent b s.retentionDays (e.prune org).now) e
    (w.scheduled e) w

instance (org : Org) (w : World Org) (e : TickEnv Org) : Decidable (Sheltered org w e) := decidableAtPrunings _ e _ w

theorem hasGood_runDue (hw : Keyed w) (h : HasGood w org) (hsheltered : Sheltered org w e) : HasGood (w.runDue e) org := by
  unfold World.runDue
  split
  · exact h
  · refine (runSchedules_invariant (HasGood · org) ?_ ?_ hw h hsheltered).2
    · rintro w ⟨b,hb,horg⟩ r - -
      exact ⟨b,(fire_effect w e r.1 r.2).1 b hb,horg⟩
    · rintro w ⟨b,hb,horg⟩ hk ⟨orgId,s⟩ - - hrecent
      by_cases hsame : orgId = org
      · subst hsame
        obtain ⟨b',hb',horg',hrecent⟩ := hrecent rfl
        exact ⟨b',good_prune hk hb' fun _ => hrecent,horg'⟩
      · exact ⟨b,good_prune hk hb fun horg' => absurd (horg'.symm.trans horg) hsame,horg⟩

/-- Ticks of the worker, and runs on demand. -/
inductive EngineAction (Org : Type) where
  | runDue (e : TickEnv Org)
  | runNow (orgId : Org) (e : RunEnv)

def engineStep (w : World Org) : EngineAction Org → Option (World Org)
  | .runDue e => some (w.runDue e)
  | .runNow orgId e => some (w.run orgId e).1

/-- Schedules, and no backup yet. -/
def World.fresh (schedules : Table (Prod.fst : Org × Schedule → Org)) : World Org := ⟨schedules,.empty,[]⟩

def ShelteredStep (org : Org) (w : World Org) : EngineAction Org → Prop
  | .runDue e => Sheltered org w e
  | .runNow _ _ => True

instance (org : Org) (w : World Org) (a : EngineAction Org) : Decidable (ShelteredStep org w a) :=
  match a with
  | .runDue e => inferInstanceAs (Decidable (Sheltered org w e))
  | .runNow _ _ => isTrue trivial

theorem keyed_engineStep {a : EngineAction Org} (hw : Keyed w) (h : engineStep w a = some w') : Keyed w' := by
  cases a with
  | runDue e => exact Option.some.inj h ▸ keyed_runDue hw
  | runNow orgId e => exact Option.some.inj h ▸ (runEffect_run w orgId e).keyed hw

theorem hasGood_engineStep {a : EngineAction Org} (hw : Keyed w) (hgood : HasGood w org) (ha : ShelteredStep org w a)
    (h : engineStep w a = some w') : HasGood w' org := by
  cases a with
  | runDue e => exact Option.some.inj h ▸ hasGood_runDue hw hgood ha
  | runNow orgId e =>
    obtain ⟨b,hb,horg⟩ := hgood
    exact Option.some.inj h ▸ ⟨b,(runEffect_run w orgId e).good hb,horg⟩

theorem pruned_by_age {schedules : Table (Prod.fst : Org × Schedule → Org)}
    (h : Run engineStep (fun _ _ => True) (.fresh schedules) w) :
    (∀ e b, Good w b → (∀ s, (b.orgId,s) ∈ w.schedules.rows → isDue s e.now = true → Recent b s.retentionDays (e.prune b.orgId).now) →
      Good (w.runDue e) b) ∧
    ∀ org, HasGood w org → ∀ w', Run engineStep (ShelteredStep org) w w' → HasGood w' org := by
  have hw : Keyed w := by
    refine h.invariant (fun _ a _ hw _ => keyed_engineStep hw) ?_
    exact fun b hb => absurd hb List.not_mem_nil
  refine ⟨fun e b hb => good_runDue hw hb,fun org hgood w' hrun => ?_⟩
  have hstep (w : World Org) (a : EngineAction Org) (w' : World Org) (h : Keyed w ∧ HasGood w org) (ha : ShelteredStep org w a)
      (hstep : engineStep w a = some w') : Keyed w' ∧ HasGood w' org :=
    ⟨keyed_engineStep h.1 hstep,hasGood_engineStep h.1 h.2 ha hstep⟩
  have hboth := hrun.invariant hstep ⟨hw,hgood⟩
  exact hboth.2

def daily (retentionDays : Nat) : Table (Prod.fst : Unit × Schedule → Unit) :=
  ⟨[((),⟨.daily,retentionDays,true,none,none⟩)],List.nodup_singleton ()⟩

/-- A tick that meets no fault but in its dump. It starts its run a second after it and prunes after a minute. -/
def tickAt (now later : Instant) (id : JsString) (dumpFails : Bool) : TickEnv Unit where
  now := now
  selectFails := false
  order rows := rows
  run _ := ⟨id,now.millis*1000 + 1000000,false,dumpFails,false,false,false⟩
  updateFails _ := false
  prune _ := ⟨later,false,fun rows => rows,fun _ => false,fun _ => false,List.Perm.refl⟩
  order_perm := List.Perm.refl

def firstDay : TickEnv Unit :=
  tickAt (.of 2026 3 10 2 0 0 0 (by decide)) (.of 2026 3 10 2 1 0 0 (by decide)) (js "a") false

def secondDay : TickEnv Unit :=
  tickAt (.of 2026 3 11 2 0 0 0 (by decide)) (.of 2026 3 11 2 1 0 0 (by decide)) (js "b") true

theorem kept_for_a_week : HasGood (((World.fresh (daily 7)).runDue firstDay).runDue secondDay) () := by
  have hfirst : Run engineStep (fun _ _ => True) (.fresh (daily 7)) ((World.fresh (daily 7)).runDue firstDay) :=
    .tail (.runDue firstDay) (.refl _) trivial rfl
  refine (pruned_by_age hfirst).2 () (by decide +kernel) _ (.tail (.runDue secondDay) (.refl _) ?_ rfl)
  decide +kernel

theorem last_backup_pruned : firstDay.now.millis < secondDay.now.millis ∧
    HasGood ((World.fresh (daily 1)).runDue firstDay) () ∧
    ¬HasGood (((World.fresh (daily 1)).runDue firstDay).runDue secondDay) () := by
  decide +kernel

end Loop
end JustMail.Backups
