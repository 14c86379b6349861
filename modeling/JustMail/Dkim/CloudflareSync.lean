import JustMail.Dkim.DnsReconcile
import JustMail.Foundation.KeyedTable

/-! Synchronisation with a provider that stores single records under ids of their own
(`cloudflare.ts`). -/
namespace JustMail.Dkim
open Foundation

section Zone
variable (cm : CaseMapping)

structure CfZone where
  records : Table fun e : ProviderRecord Nat => e.id
  nextId : Nat
  fresh : ∀ e ∈ records.rows, e.id < nextId

/-- What is stored: CAA content goes through its structured form. -/
def storedPayload (p : Payload) : Option Payload :=
  if p.type = CAA then (parseCaa cm p.content).map fun caa => { p with content := caaToString caa, priority := none }
  else some p

namespace CfZone

def put (zone : CfZone) (id : Nat) (p : Payload) : CfZone where
  records := zone.records.updateWhere (fun e => e.id = id) (fun e => ⟨p,e.id⟩) (fun _ => rfl)
  nextId := zone.nextId
  fresh := by
    intro e he
    obtain ⟨e',he',rfl⟩ := List.mem_map.mp he
    have hfresh := zone.fresh e' he'
    split <;> exact hfresh

def post (zone : CfZone) (p : Payload) : CfZone where
  records := zone.records.insert ⟨p,zone.nextId⟩ (by
    refine List.find?_eq_none.mpr fun e he => ?_
    have hfresh := zone.fresh e he
    simp
    omega)
  nextId := zone.nextId+1
  fresh := by
    intro e he
    rcases List.mem_append.mp he with he | he
    · have hfresh := zone.fresh e he
      omega
    · rw [List.mem_singleton.mp he]
      exact Nat.lt_succ_self _

def delete (zone : CfZone) (id : Nat) : CfZone where
  records := zone.records.deleteWhere (fun e => e.id = id)
  nextId := zone.nextId
  fresh e he := zone.fresh e (List.mem_of_mem_filter he)

def listRecords (zone : CfZone) (name type : JsString) : List (ProviderRecord Nat) :=
  zone.records.rows.filter fun e => e.name = name ∧ e.type = type

def upsertRecord (zone : CfZone) (existing : Option (ProviderRecord Nat)) (payload : Payload) :
    Option (ProviderRecord Nat × CfZone) :=
  (storedPayload cm payload).map fun stored => match existing with
    | some e => (⟨stored,e.id⟩,zone.put e.id stored)
    | none => (⟨stored,zone.nextId⟩,zone.post stored)

@[ext] theorem ext {zone zone' : CfZone} (hrows : zone.records.rows = zone'.records.rows)
    (hnext : zone.nextId = zone'.nextId) : zone = zone' := by
  obtain ⟨⟨rows,_⟩,next,_⟩ := zone
  obtain ⟨⟨rows',_⟩,next',_⟩ := zone'
  obtain rfl : rows = rows' := hrows
  obtain rfl : next = next' := hnext
  rfl

end CfZone

def cloudflare : DnsProvider CfZone Nat where
  listRecords := CfZone.listRecords
  upsertRecord := CfZone.upsertRecord cm
  deleteRecord := CfZone.delete

end Zone

section Step
variable (cm : CaseMapping) (r : RecordRow) {zone : CfZone} {e c : ProviderRecord Nat} {w : Payload}
variable {L : List (ProviderRecord Nat)}

def At (e : ProviderRecord Nat) : Prop := e.name = r.name ∧ e.type = r.type

/-- The record reads the same as the row. -/
def Matches (e : ProviderRecord Nat) : Prop := At r e ∧ strip e.content = strip r.content

/-- The records a row may write or delete. -/
structure Owns (e : ProviderRecord Nat) : Prop where
  place : At r e
  kind : r.type = TXT → txtKind cm e.content = txtKind cm r.content
  unknown : r.type = TXT → txtKind cm r.content = none → strip e.content = strip r.content

/-- What tells managed rows apart: at most one row has each key. -/
def rowKey : JsString × JsString × Option JsString :=
  (r.name,r.type,if r.type = TXT then txtKind cm r.content else none)

instance : DecidablePred (At r) := fun _ => inferInstanceAs (Decidable (_ ∧ _))
instance : DecidablePred (Matches r) := fun _ => inferInstanceAs (Decidable (_ ∧ _))

theorem txtKind_congr {s t : JsString} (h : strip s = strip t) : txtKind cm s = txtKind cm t := by
  rw [txtKind,txtKind,h]

variable {r}

theorem Matches.owns (h : Matches r e) : Owns cm r e := ⟨h.1,fun _ => txtKind_congr cm h.2,fun _ _ => h.2⟩

/-- Rows with different keys own different records. -/
theorem Owns.rowKey_eq {r' : RecordRow} (h : Owns cm r e) (h' : Owns cm r' e) : rowKey cm r = rowKey cm r' := by
  have hname : r.name = r'.name := h.place.1.symm.trans h'.place.1
  have htype : r.type = r'.type := h.place.2.symm.trans h'.place.2
  rw [rowKey,rowKey,hname,htype]
  split
  · rename_i htxt
    rw [← h.kind (htype.trans htxt),h'.kind htxt]
  · rfl

/-- The chosen record is owned, and no record listed before it reads as the row. -/
theorem chooseExisting_some
    (h : chooseExisting cm r.toExpectedRecord (L.filter fun e => e.name = r.name ∧ e.type = r.type) = some c) :
    Owns cm r c ∧ ∃ as bs, L = as ++ c :: bs ∧ ∀ a ∈ as, ¬Matches r a := by
  rw [chooseExisting] at h
  split at h
  · rename_i exact hexact
    obtain rfl := Option.some.inj h
    rw [List.find?_filter] at hexact
    obtain ⟨hmatch,as,bs,hsplit,hbefore⟩ := List.find?_eq_some_iff_append.mp hexact
    have hmatch : Matches r exact := by simpa [Matches,At,and_assoc] using hmatch
    refine ⟨hmatch.owns cm,as,bs,hsplit,?_⟩
    intro a ha hmatch
    have := hbefore a ha
    simp_all [Matches,At]
  · rename_i hnone
    have hbefore : ∀ a ∈ L, ¬Matches r a := by
      intro a ha hmatch
      have := List.find?_eq_none.mp hnone a (List.mem_filter.mpr ⟨ha,by simpa [At] using hmatch.1⟩)
      exact this (by simpa using hmatch.2)
    have hlisted : c ∈ L.filter (fun e => e.name = r.name ∧ e.type = r.type) ∧
        (r.type = TXT → txtKind cm c.content = txtKind cm r.content ∧ txtKind cm r.content ≠ none) := by
      split at h
      · split at h
        · simp at h
        · rename_i kind hkind
          refine ⟨List.mem_of_find?_eq_some h,fun _ => ?_⟩
          have hc := List.find?_some h
          simp only [decide_eq_true_eq] at hc
          exact ⟨hc.trans hkind.symm,by simp [hkind]⟩
      · rename_i htxt
        split at h
        · exact ⟨List.mem_of_find?_eq_some h,fun h => absurd h htxt⟩
        · split at h
          · simp at h
          · exact ⟨List.mem_of_mem_head? h,fun h => absurd h htxt⟩
    obtain ⟨hmem,hkind⟩ := hlisted
    obtain ⟨hL,hplace⟩ := List.mem_filter.mp hmem
    obtain ⟨as,bs,hsplit⟩ := List.append_of_mem hL
    refine ⟨⟨by simpa [At] using hplace,fun htxt => (hkind htxt).1,fun htxt hno => absurd hno (hkind htxt).2⟩,
      as,bs,hsplit,?_⟩
    intro a ha
    exact hbefore a (hsplit ▸ List.mem_append_left _ ha)

/-- Without a choice no record reads as the row. -/
theorem chooseExisting_none
    (h : chooseExisting cm r.toExpectedRecord (L.filter fun e => e.name = r.name ∧ e.type = r.type) = none) :
    ∀ a ∈ L, ¬Matches r a := by
  rw [chooseExisting] at h
  split at h
  · simp at h
  · rename_i hnone
    intro a ha hmatch
    have := List.find?_eq_none.mp hnone a (List.mem_filter.mpr ⟨ha,by simpa [At] using hmatch.1⟩)
    exact this (by simpa using hmatch.2)

theorem mem_staleDuplicates {rec : ProviderRecord Nat}
    (h : e ∈ staleDuplicates cm r.toExpectedRecord (L.filter fun e => e.name = r.name ∧ e.type = r.type) (some rec)) :
    (r.type = TXT ∧ txtKind cm r.content ≠ none) ∧ e ∈ L ∧ Owns cm r e ∧ e.id ≠ rec.id := by
  rw [staleDuplicates] at h
  split at h
  · simp at h
  · rename_i htxt
    split at h
    · simp at h
    · rename_i kind hkind
      simp only [List.mem_filter,decide_eq_true_eq,Option.map_some,ne_eq,Option.some.injEq] at h
      obtain ⟨⟨he,hplace⟩,hsame,hid⟩ := h
      have hknown : txtKind cm r.content ≠ none := by simp [hkind]
      exact ⟨⟨not_not.mp htxt,hknown⟩,he,⟨hplace,fun _ => hsame.trans hkind.symm,fun _ hno => absurd hno hknown⟩,hid⟩

/-- With a known kind, every other owned record is stale. -/
theorem staleDuplicates_mem {rec : ProviderRecord Nat} (htxt : r.type = TXT)
    (hkind : txtKind cm r.content ≠ none) (he : e ∈ L) (howns : Owns cm r e) (hid : e.id ≠ rec.id) :
    e ∈ staleDuplicates cm r.toExpectedRecord (L.filter fun e => e.name = r.name ∧ e.type = r.type) (some rec) := by
  obtain ⟨kind,hkind⟩ := Option.ne_none_iff_exists'.mp hkind
  rw [staleDuplicates,if_neg (not_not_intro htxt),hkind]
  simp only [List.mem_filter,decide_eq_true_eq,Option.map_some,ne_eq,Option.some.injEq]
  exact ⟨⟨he,howns.place⟩,(howns.kind htxt).trans hkind,hid⟩

theorem delete_all (stale : List (ProviderRecord Nat)) (zone : CfZone) :
    (stale.foldl (fun z dup => z.delete dup.id) zone).records.rows =
      zone.records.rows.filter (fun e => ∀ dup ∈ stale, e.id ≠ dup.id) ∧
    (stale.foldl (fun z dup => z.delete dup.id) zone).nextId = zone.nextId := by
  induction stale generalizing zone with
  | nil => simp
  | cons dup stale ih =>
    obtain ⟨hrows,hnext⟩ := ih (zone.delete dup.id)
    rw [List.foldl_cons,hrows,hnext]
    refine ⟨?_,rfl⟩
    change List.filter _ (zone.records.rows.filter fun e => !decide (e.id = dup.id)) = _
    rw [List.filter_filter]
    refine List.filter_congr fun e _ => ?_
    simp [Bool.and_comm]

end Step

section Effect
variable (cm : CaseMapping) (r : RecordRow) (w : Payload)

/-- The row is in place: the first record that reads as it is the one it wrote, and
with a known kind it is the only one it owns. -/
structure Settled (zone : CfZone) (id : Nat) : Prop where
  first : zone.records.rows.find? (Matches r) = some ⟨w,id⟩
  single : r.type = TXT → txtKind cm r.content ≠ none → ∀ e ∈ zone.records.rows, Owns cm r e → e = ⟨w,id⟩

/-- Records the row does not own are as before, and in the same order. -/
def Frame (zone zone' : CfZone) : Prop :=
  ∀ q : ProviderRecord Nat → Bool, (∀ e, q e = true → ¬Owns cm r e) →
    zone'.records.rows.filter q = zone.records.rows.filter q

variable {cm r w} {zone zone' : CfZone} {id : Nat}

/-- Equal lists of every selection of records that a property singles out. -/
theorem mem_of_filter_eq {e : ProviderRecord Nat} {owned : ProviderRecord Nat → Prop}
    (h : ∀ q : ProviderRecord Nat → Bool, (∀ e, q e = true → owned e) →
      zone'.records.rows.filter q = zone.records.rows.filter q)
    (he : owned e) : e ∈ zone'.records.rows ↔ e ∈ zone.records.rows := by
  have hfilter := h (fun e' => decide (e' = e)) fun e' he' => of_decide_eq_true he' ▸ he
  have hself : ∀ l : List (ProviderRecord Nat), e ∈ l ↔ e ∈ l.filter fun e' => decide (e' = e) := by simp
  rw [hself,hfilter,← hself]

/-- A row stays in place while the records it owns do. -/
theorem Settled.keep (h : Settled cm r w zone id)
    (hkeep : ∀ q : ProviderRecord Nat → Bool, (∀ e, q e = true → Owns cm r e) →
      zone'.records.rows.filter q = zone.records.rows.filter q) : Settled cm r w zone' id := by
  refine ⟨?_,?_⟩
  · have hfilter := hkeep (Matches r) fun e he => (of_decide_eq_true he).owns cm
    have hself : ∀ l : List (ProviderRecord Nat), l.find? (Matches r) = (l.filter (Matches r)).find? (Matches r) := by
      intro l
      rw [List.find?_filter]
      simp
    rw [hself,hfilter,← hself]
    exact h.first
  · intro htxt hkind e he howns
    exact h.single htxt hkind e ((mem_of_filter_eq hkeep howns).mp he) howns

/-- The zone after `upsertRecord` wrote the record `id`. -/
structure Written (cm : CaseMapping) (r : RecordRow) (w : Payload) (zone zone' : CfZone) (id : Nat) : Prop where
  frame : Frame cm r zone zone'
  first : ∃ as bs, zone'.records.rows = as ++ ⟨w,id⟩ :: bs ∧ ∀ a ∈ as, ¬Matches r a
  origin : ∀ e ∈ zone'.records.rows, e.id ≠ id → e ∈ zone.records.rows

theorem eq_of_id {e e' : ProviderRecord Nat} (he : e ∈ zone.records.rows) (he' : e' ∈ zone.records.rows)
    (hid : e.id = e'.id) : e = e' := List.inj_on_of_nodup_map zone.records.unique he he' hid

theorem matches_written (hsame : w.toExpectedRecord = r.toExpectedRecord) : Matches r ⟨w,id⟩ := by
  refine ⟨⟨?_,?_⟩,?_⟩
  · exact congrArg ExpectedRecord.name hsame
  · exact congrArg ExpectedRecord.type hsame
  · exact congrArg (fun x : ExpectedRecord => strip x.content) hsame

theorem put_written {c : ProviderRecord Nat} {as bs : List (ProviderRecord Nat)}
    (hsame : w.toExpectedRecord = r.toExpectedRecord) (howns : Owns cm r c)
    (hsplit : zone.records.rows = as ++ c :: bs) (hbefore : ∀ a ∈ as, ¬Matches r a) :
    Written cm r w zone (zone.put c.id w) c.id := by
  have hc : c ∈ zone.records.rows := by simp [hsplit]
  have hput : (zone.put c.id w).records.rows = zone.records.rows.map fun e => if e.id = c.id then ⟨w,e.id⟩ else e := by
    refine List.map_congr_left fun e _ => ?_
    simp
  refine ⟨?_,?_,?_⟩
  · intro q hq
    have hqw : q ⟨w,c.id⟩ = false := Bool.eq_false_iff.mpr fun h => hq _ h ((matches_written hsame).owns cm)
    have hqc : q c = false := Bool.eq_false_iff.mpr fun h => hq _ h howns
    rw [hput,List.filter_map]
    have hfilter : zone.records.rows.filter (q ∘ fun e => if e.id = c.id then ⟨w,e.id⟩ else e) =
        zone.records.rows.filter q := by
      refine List.filter_congr fun e he => ?_
      rw [Function.comp_apply]
      split
      · rename_i hid
        rw [hid,hqw,eq_of_id he hc hid,hqc]
      · rfl
    rw [hfilter]
    conv_rhs => rw [← List.map_id (zone.records.rows.filter q)]
    refine List.map_congr_left fun e he => if_neg fun hid => ?_
    obtain ⟨he,hqe⟩ := List.mem_filter.mp he
    rw [eq_of_id he hc hid,hqc] at hqe
    exact Bool.false_ne_true hqe
  · refine ⟨as,bs.map fun e => if e.id = c.id then ⟨w,e.id⟩ else e,?_,hbefore⟩
    rw [hput,hsplit,List.map_append,List.map_cons,if_pos rfl]
    refine congrArg (· ++ _) ((List.map_congr_left fun a ha => if_neg fun hid => ?_).trans (List.map_id as))
    -- ids are pairwise different, so that no earlier record has the id of `c`
    have hnodup := zone.records.unique
    rw [hsplit,List.map_append,List.map_cons,List.nodup_append] at hnodup
    exact hnodup.2.2 _ (List.mem_map_of_mem ha) _ List.mem_cons_self hid
  · intro e he hid
    rw [hput] at he
    obtain ⟨e',he',rfl⟩ := List.mem_map.mp he
    split at hid
    · rename_i heq
      exact absurd heq hid
    · rename_i hne
      rwa [if_neg hne]

theorem post_written (hsame : w.toExpectedRecord = r.toExpectedRecord)
    (hnone : ∀ a ∈ zone.records.rows, ¬Matches r a) : Written cm r w zone (zone.post w) zone.nextId := by
  have hpost : (zone.post w).records.rows = zone.records.rows ++ [⟨w,zone.nextId⟩] := rfl
  refine ⟨?_,⟨zone.records.rows,[],hpost,hnone⟩,?_⟩
  · intro q hq
    have hqw : q ⟨w,zone.nextId⟩ = false := Bool.eq_false_iff.mpr fun h => hq _ h ((matches_written hsame).owns cm)
    simp [hpost,hqw]
  · intro e he hid
    rw [hpost,List.mem_append,List.mem_singleton] at he
    rcases he with he | rfl
    · exact he
    · exact absurd rfl hid

/-- Deleting the stale duplicates puts the row in place. -/
theorem Written.settled {zone₁ : CfZone} {rec : ProviderRecord Nat} {stale : List (ProviderRecord Nat)}
    (h : Written cm r w zone zone₁ rec.id) (hsame : w.toExpectedRecord = r.toExpectedRecord)
    (hstale : stale = staleDuplicates cm r.toExpectedRecord (zone.listRecords r.name r.type) (some rec))
    (hrows : zone'.records.rows = zone₁.records.rows.filter fun e => ∀ dup ∈ stale, e.id ≠ dup.id) :
    Frame cm r zone zone' ∧ Settled cm r w zone' rec.id := by
  have hmem : ∀ dup ∈ stale, dup ∈ zone.records.rows ∧ Owns cm r dup ∧ dup.id ≠ rec.id := by
    intro dup hdup
    rw [hstale] at hdup
    exact (mem_staleDuplicates cm hdup).2
  refine ⟨?_,?_,?_⟩
  · intro q hq
    rw [hrows,List.filter_filter,← h.frame q hq]
    refine List.filter_congr fun e he => ?_
    cases hqe : q e with
    | false => simp
    | true =>
      simp only [Bool.true_and,decide_eq_true_eq]
      intro dup hdup hid
      obtain ⟨hdup,howns,hne⟩ := hmem dup hdup
      have hsame := eq_of_id (h.origin e he (hid ▸ hne)) hdup hid
      exact hq e hqe (hsame ▸ howns)
  · obtain ⟨as,bs,hsplit,hbefore⟩ := h.first
    have hkept : decide (∀ dup ∈ stale, (⟨w,rec.id⟩ : ProviderRecord Nat).id ≠ dup.id) = true :=
      decide_eq_true fun dup hdup => (hmem dup hdup).2.2.symm
    rw [hrows,hsplit,List.filter_append,List.filter_cons,if_pos hkept,List.find?_append]
    have has : (as.filter fun e => ∀ dup ∈ stale, e.id ≠ dup.id).find? (Matches r) = none := by
      refine List.find?_eq_none.mpr fun a ha => ?_
      simpa using hbefore a (List.mem_of_mem_filter ha)
    rw [has,Option.none_or]
    exact List.find?_cons_of_pos (decide_eq_true (matches_written hsame))
  · intro htxt hkind e he howns
    rw [hrows,List.mem_filter] at he
    obtain ⟨he,hkept⟩ := he
    have hwritten : (⟨w,rec.id⟩ : ProviderRecord Nat) ∈ zone₁.records.rows := by
      obtain ⟨as,bs,hsplit,-⟩ := h.first
      simp [hsplit]
    by_cases hid : e.id = rec.id
    · exact eq_of_id he hwritten hid
    · have hstale' := staleDuplicates_mem cm htxt hkind (h.origin e he hid) howns hid
      exact absurd rfl (of_decide_eq_true hkept e (hstale ▸ hstale'))

end Effect

section Sync
variable (cm : CaseMapping)

/-- A CAA row in the form `caaToString` prints. -/
def CaaCanonical (r : RecordRow) : Prop :=
  r.type = CAA → ∃ t, parseCaa cm r.content = some t ∧ caaToString t = r.content

variable {cm} {r : RecordRow} {zone zone' : CfZone} {w : Payload} {id : Nat} {rows : List RecordRow}

theorem CaaCanonical.stored (h : CaaCanonical cm r) :
    ∃ w, storedPayload cm r.toPayload = some w ∧ w.toExpectedRecord = r.toExpectedRecord := by
  rw [storedPayload]
  split
  · rename_i hcaa
    obtain ⟨t,hparse,hprint⟩ := h hcaa
    rw [hparse]
    refine ⟨_,rfl,?_⟩
    change ExpectedRecord.mk r.type r.name (caaToString t) = r.toExpectedRecord
    rw [hprint]
  · exact ⟨r.toPayload,rfl,rfl⟩

/-- One row: the frame, and the row in place. -/
theorem syncRow_effect (zone : CfZone) (hw : storedPayload cm r.toPayload = some w) (hsame : w.toExpectedRecord = r.toExpectedRecord) :
    ∃ entry zone' id, syncRow cm (cloudflare cm) zone r = some (entry,zone') ∧ entry.action ≠ .error ∧
      Frame cm r zone zone' ∧ Settled cm r w zone' id := by
  have hsettle : ∀ (rec : ProviderRecord Nat) zone₁, Written cm r w zone zone₁ rec.id →
      zone.upsertRecord cm (chooseExisting cm r.toExpectedRecord (zone.listRecords r.name r.type)) r.toPayload =
        some (rec,zone₁) →
      ∃ entry zone' id, syncRow cm (cloudflare cm) zone r = some (entry,zone') ∧ entry.action ≠ .error ∧
        Frame cm r zone zone' ∧ Settled cm r w zone' id := by
    intro rec zone₁ hwritten hupsert
    obtain ⟨entry,haction,hsync⟩ := syncRow_of_upsert cm (cloudflare cm) hupsert
    exact ⟨entry,_,rec.id,hsync,haction,hwritten.settled hsame rfl (delete_all _ zone₁).1⟩
  cases hchosen : chooseExisting cm r.toExpectedRecord (zone.listRecords r.name r.type) with
  | some c =>
    obtain ⟨howns,as,bs,hsplit,hbefore⟩ := chooseExisting_some cm hchosen
    refine hsettle ⟨w,c.id⟩ (zone.put c.id w) (put_written hsame howns hsplit hbefore) ?_
    rw [hchosen,CfZone.upsertRecord,hw]
    rfl
  | none =>
    refine hsettle ⟨w,zone.nextId⟩ (zone.post w) (post_written hsame (chooseExisting_none cm hchosen)) ?_
    rw [hchosen,CfZone.upsertRecord,hw]
    rfl

/-- A row in place is left alone. -/
theorem Settled.syncRow_eq (h : Settled cm r w zone id) (hw : storedPayload cm r.toPayload = some w) :
    ∃ entry, entry.action ≠ .error ∧ syncRow cm (cloudflare cm) zone r = some (entry,zone) := by
  have hchosen : chooseExisting cm r.toExpectedRecord (zone.listRecords r.name r.type) = some ⟨w,id⟩ := by
    have hexact : (zone.listRecords r.name r.type).find? (fun e => strip e.content = strip r.content) = some ⟨w,id⟩ := by
      rw [← h.first,CfZone.listRecords,List.find?_filter]
      refine congrArg (zone.records.rows.find? ·) (funext fun e => ?_)
      simp only [decide_eq_true_eq]
      exact decide_eq_decide.mpr Iff.rfl
    rw [chooseExisting,hexact]
  have hput : zone.put id w = zone := by
    refine CfZone.ext ?_ rfl
    refine (List.map_congr_left fun e he => ?_).trans (List.map_id zone.records.rows)
    split
    · rename_i hid
      have hself := eq_of_id he (List.mem_of_find?_eq_some h.first) (of_decide_eq_true hid)
      rw [hself]
      rfl
    · rfl
  have hupsert : zone.upsertRecord cm (chooseExisting cm r.toExpectedRecord (zone.listRecords r.name r.type)) r.toPayload =
      some (⟨w,id⟩,zone) := by
    rw [hchosen,CfZone.upsertRecord,hw]
    change some ((⟨w,id⟩ : ProviderRecord Nat),zone.put id w) = _
    rw [hput]
  have hstale : staleDuplicates cm r.toExpectedRecord (zone.listRecords r.name r.type) (some ⟨w,id⟩) = [] := by
    refine List.eq_nil_iff_forall_not_mem.mpr fun e he => ?_
    obtain ⟨⟨htxt,hkind⟩,he,howns,hne⟩ := mem_staleDuplicates cm he
    exact hne (by rw [h.single htxt hkind e he howns])
  obtain ⟨entry,haction,hsync⟩ := syncRow_of_upsert cm (cloudflare cm) hupsert
  refine ⟨entry,haction,hsync.trans ?_⟩
  change some (entry,List.foldl _ zone
    (staleDuplicates cm r.toExpectedRecord (zone.listRecords r.name r.type) (some ⟨w,id⟩))) = _
  rw [hstale]
  rfl

def InPlace (cm : CaseMapping) (zone : CfZone) (r : RecordRow) : Prop :=
  ∃ w id, storedPayload cm r.toPayload = some w ∧ w.toExpectedRecord = r.toExpectedRecord ∧ Settled cm r w zone id

/-- The whole run, row by row: what no row owns is as before, and every row is in place. -/
theorem sync_effect (hcaa : ∀ r ∈ rows, CaaCanonical cm r) (hkeys : (rows.map (rowKey cm)).Nodup) (zone : CfZone) :
    ErrorFree (syncToProvider cm (cloudflare cm) rows zone).1 ∧
    (∀ q : ProviderRecord Nat → Bool, (∀ e, q e = true → ∀ r ∈ rows, ¬Owns cm r e) →
      (syncToProvider cm (cloudflare cm) rows zone).2.records.rows.filter q = zone.records.rows.filter q) ∧
    ∀ r ∈ rows, InPlace cm (syncToProvider cm (cloudflare cm) rows zone).2 r := by
  induction rows generalizing zone with
  | nil => exact ⟨fun a ha => absurd ha List.not_mem_nil,fun _ _ => rfl,fun r hr => absurd hr List.not_mem_nil⟩
  | cons r rows ih =>
    obtain ⟨w,hw,hsame⟩ := (hcaa r List.mem_cons_self).stored
    obtain ⟨entry,zone',id,hsync,haction,hframe,hsettled⟩ := syncRow_effect zone hw hsame
    rw [List.map_cons,List.nodup_cons] at hkeys
    obtain ⟨herr,hrest,hplaced⟩ := ih (fun r hr => hcaa r (List.mem_cons_of_mem _ hr)) hkeys.2 zone'
    rw [syncToProvider_cons cm hsync]
    refine ⟨?_,?_,?_⟩
    · rintro a (_ | ⟨_,ha⟩)
      · exact haction
      · exact herr a ha
    · intro q hq
      exact (hrest q fun e he r hr => hq e he r (List.mem_cons_of_mem _ hr)).trans
        (hframe q fun e he => hq e he r List.mem_cons_self)
    · rintro r' (_ | ⟨_,hr'⟩)
      · refine ⟨w,id,hw,hsame,hsettled.keep fun q hq => hrest q ?_⟩
        intro e he r' hr' howns
        exact hkeys.1 ((hq e he).rowKey_eq cm howns ▸ List.mem_map_of_mem hr')
      · exact hplaced r' hr'

theorem sync_of_inPlace (h : ∀ r ∈ rows, InPlace cm zone r) : (syncToProvider cm (cloudflare cm) rows zone).2 = zone := by
  induction rows with
  | nil => rfl
  | cons r rows ih =>
    obtain ⟨w,id,hw,-,hsettled⟩ := h r List.mem_cons_self
    obtain ⟨entry,-,hsync⟩ := hsettled.syncRow_eq hw
    rw [syncToProvider_cons cm hsync]
    exact ih fun r hr => h r (List.mem_cons_of_mem _ hr)

/-- What a run leaves behind. `foreign` says which TXT records of unknown kind count as
foreign to the rows. -/
structure SyncResult (cm : CaseMapping) (foreign : ProviderRecord Nat → Prop) (rows : List RecordRow)
    (zone zone' : CfZone) : Prop where
  foreignKept : ∀ e ∈ zone.records.rows, e.type = TXT → txtKind cm e.content = none → foreign e → e ∈ zone'.records.rows
  otherNames : ∀ name type, (∀ r ∈ rows, ¬(r.name = name ∧ r.type = type)) →
    zone'.listRecords name type = zone.listRecords name type
  oneOfKind : ∀ r ∈ rows, r.type = TXT → ∀ kind, txtKind cm r.content = some kind →
    ∃ e, (zone'.listRecords r.name r.type).filter (fun e => txtKind cm e.content = some kind) = [e] ∧ e.content = r.content
  present : ∀ r ∈ rows, (r.type = TXT → txtKind cm r.content = none) →
    ∃ e ∈ zone'.listRecords r.name r.type, e.content = r.content
  secondRun : (syncToProvider cm (cloudflare cm) rows zone').2 = zone'

theorem InPlace.present (h : InPlace cm zone r) : ∃ e ∈ zone.listRecords r.name r.type, e.content = r.content := by
  obtain ⟨w,id,-,hsame,hsettled⟩ := h
  refine ⟨⟨w,id⟩,List.mem_filter.mpr ⟨List.mem_of_find?_eq_some hsettled.first,?_⟩,?_⟩
  · exact decide_eq_true (matches_written hsame).1
  · exact congrArg ExpectedRecord.content hsame

/-- Ids are unique, so that records equal to one record are one record. -/
theorem filter_eq_singleton {q : ProviderRecord Nat → Bool} {e : ProviderRecord Nat} (he : e ∈ zone.records.rows)
    (hq : ∀ e' ∈ zone.records.rows, q e' = true ↔ e' = e) : zone.records.rows.filter q = [e] := by
  have hnodup : zone.records.rows.Nodup := zone.records.unique.of_map _
  refine List.perm_singleton.mp ((List.perm_ext_iff_of_nodup (hnodup.filter q) (List.nodup_singleton e)).mpr fun e' => ?_)
  rw [List.mem_filter,List.mem_singleton]
  constructor
  · rintro ⟨he',hqe⟩
    exact (hq e' he').mp hqe
  · rintro rfl
    exact ⟨he,(hq e' he).mpr rfl⟩

theorem InPlace.oneOfKind {kind : JsString} (h : InPlace cm zone r) (htxt : r.type = TXT)
    (hkind : txtKind cm r.content = some kind) :
    ∃ e, (zone.listRecords r.name r.type).filter (fun e => txtKind cm e.content = some kind) = [e] ∧
      e.content = r.content := by
  obtain ⟨w,id,-,hsame,hsettled⟩ := h
  have hknown : txtKind cm r.content ≠ none := by simp [hkind]
  refine ⟨⟨w,id⟩,?_,congrArg ExpectedRecord.content hsame⟩
  rw [CfZone.listRecords,List.filter_filter]
  refine filter_eq_singleton (List.mem_of_find?_eq_some hsettled.first) fun e he => ?_
  simp only [Bool.and_eq_true,decide_eq_true_eq]
  constructor
  · rintro ⟨hsame,hplace⟩
    exact hsettled.single htxt hknown e he
      ⟨hplace,fun _ => hsame.trans hkind.symm,fun _ hno => absurd hno hknown⟩
  · rintro rfl
    have hmatches : Matches r ⟨w,id⟩ := matches_written hsame
    have howns := hmatches.owns cm
    exact ⟨(howns.kind htxt).trans hkind,howns.place⟩

/-- One run of the loop, for every zone and all rows with different keys. -/
theorem cloudflare_sync (rows : List RecordRow) (zone : CfZone) (hcaa : ∀ r ∈ rows, CaaCanonical cm r)
    (hkeys : (rows.map (rowKey cm)).Nodup) :
    ErrorFree (syncToProvider cm (cloudflare cm) rows zone).1 ∧
    SyncResult cm (fun e => ∀ r ∈ rows, strip e.content ≠ strip r.content) rows zone
      (syncToProvider cm (cloudflare cm) rows zone).2 := by
  obtain ⟨herr,hframe,hplaced⟩ := sync_effect hcaa hkeys zone
  refine ⟨herr,?_,?_,?_,?_,?_⟩
  · intro e he htxt hkind hforeign
    refine (mem_of_filter_eq hframe ?_).mpr he
    intro r hr howns
    have hrtxt : r.type = TXT := howns.place.2.symm.trans htxt
    exact hforeign r hr (howns.unknown hrtxt ((howns.kind hrtxt).symm.trans hkind))
  · intro name type hno
    refine hframe _ fun e he r hr howns => hno r hr ?_
    obtain ⟨hname,htype⟩ := of_decide_eq_true he
    exact ⟨howns.place.1.symm.trans hname,howns.place.2.symm.trans htype⟩
  · intro r hr htxt kind hkind
    exact (hplaced r hr).oneOfKind htxt hkind
  · intro r hr _
    exact (hplaced r hr).present
  · exact sync_of_inPlace hplaced

/-- A managed TXT row of no known kind. -/
def tokenRow : RecordRow := ⟨⟨⟨TXT,js "ex.com",js "token=1"⟩,3600,none⟩,1,.custom⟩

def spfRow : RecordRow := ⟨⟨⟨TXT,js "ex.com",js "v=spf1 mx ~all"⟩,3600,none⟩,2,.spf⟩

/-- The zone holds the same token in quotes, an old SPF record twice and a foreign token. -/
def tokenZone : CfZone where
  records := ⟨[⟨⟨⟨TXT,js "ex.com",js "\"token=1\""⟩,300,none⟩,0⟩,⟨⟨⟨TXT,js "ex.com",js "v=spf1 -all"⟩,300,none⟩,1⟩,
    ⟨⟨⟨TXT,js "ex.com",js "v=spf1 mx"⟩,300,none⟩,2⟩,⟨⟨⟨TXT,js "ex.com",js "other"⟩,300,none⟩,3⟩],by decide⟩
  nextId := 4
  fresh := by decide

private theorem tokenRows_caa : ∀ r ∈ [tokenRow,spfRow], CaaCanonical asciiCase r := by
  have htype : ∀ r ∈ [tokenRow,spfRow], r.type ≠ CAA := by decide
  intro r hr hcaa
  exact absurd hcaa (htype r hr)

theorem cloudflare_sync_tokens :
    (tokenZone.listRecords (js "ex.com") TXT).length = 4 ∧
    SyncResult asciiCase (fun e => ∀ r ∈ [tokenRow,spfRow], strip e.content ≠ strip r.content) [tokenRow,spfRow] tokenZone
      (syncToProvider asciiCase (cloudflare asciiCase) [tokenRow,spfRow] tokenZone).2 :=
  ⟨by decide,(cloudflare_sync [tokenRow,spfRow] tokenZone tokenRows_caa (by decide +kernel)).2⟩

/-- A record that differs from the row in its quotes only is overwritten. -/
theorem quoted_token_overwritten :
    (∀ r ∈ [tokenRow,spfRow], CaaCanonical asciiCase r) ∧ ([tokenRow,spfRow].map (rowKey asciiCase)).Nodup ∧
    ErrorFree (syncToProvider asciiCase (cloudflare asciiCase) [tokenRow,spfRow] tokenZone).1 ∧
    ¬SyncResult asciiCase (fun e => ∀ r ∈ [tokenRow,spfRow], e.content ≠ r.content) [tokenRow,spfRow] tokenZone
      (syncToProvider asciiCase (cloudflare asciiCase) [tokenRow,spfRow] tokenZone).2 := by
  refine ⟨tokenRows_caa,by decide +kernel,(sync_effect tokenRows_caa (by decide +kernel) tokenZone).1,?_⟩
  intro h
  have hkept := h.foreignKept ⟨⟨⟨TXT,js "ex.com",js "\"token=1\""⟩,300,none⟩,0⟩ List.mem_cons_self rfl
    (by decide +kernel) (by decide +kernel)
  revert hkept
  decide +kernel

end Sync
end JustMail.Dkim
