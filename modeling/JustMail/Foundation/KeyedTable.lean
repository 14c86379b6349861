import Mathlib.Data.List.Nodup

/-! A table with a primary key: the effect of the SQL statements INSERT, UPDATE and
DELETE on the row a key names. -/
namespace JustMail.Foundation

/-- Rows with pairwise different keys. -/
structure Table {κ ρ : Type} (key : ρ → κ) where
  rows : List ρ
  unique : (rows.map key).Nodup

namespace Table
variable {κ ρ : Type} {key : ρ → κ} {t : Table key} {r : ρ}

def empty : Table key := ⟨[],List.nodup_nil⟩

/-- `UPDATE .. SET .. WHERE p`, with a new row that keeps the key. -/
def updateWhere (t : Table key) (p : ρ → Bool) (f : ρ → ρ) (hf : ∀ r, key (f r) = key r) : Table key where
  rows := t.rows.map fun r => if p r then f r else r
  unique := by
    have hkeys : (t.rows.map fun r => if p r then f r else r).map key = t.rows.map key := by
      rw [List.map_map]
      refine List.map_congr_left fun r _ => ?_
      rw [Function.comp_apply]
      split
      · exact hf r
      · rfl
    rw [hkeys]
    exact t.unique

/-- `DELETE FROM .. WHERE p`. -/
def deleteWhere (t : Table key) (p : ρ → Bool) : Table key where
  rows := t.rows.filter fun r => !p r
  unique := t.unique.sublist (List.filter_sublist.map key)

theorem eq_of_key {r r' : ρ} (hr : r ∈ t.rows) (hr' : r' ∈ t.rows) (h : key r = key r') : r = r' :=
  List.inj_on_of_nodup_map t.unique hr hr' h

variable [DecidableEq κ]

def lookup (t : Table key) (k : κ) : Option ρ := t.rows.find? fun r => key r = k

/-- `INSERT INTO ..` with a fresh key. -/
def insert (t : Table key) (r : ρ) (h : t.lookup (key r) = none) : Table key where
  rows := t.rows ++ [r]
  unique := by
    rw [List.map_append,List.nodup_append]
    refine ⟨t.unique,List.nodup_singleton _,?_⟩
    rintro k hk k' hk' rfl
    obtain ⟨r',hr',rfl⟩ := List.mem_map.mp hk
    have := List.find?_eq_none.mp h r' hr'
    simp_all

/-- A further unique column. -/
theorem nodup_insert {γ : Type} {h : t.lookup (key r) = none} {column : ρ → γ} (ht : (t.rows.map column).Nodup)
    (hfresh : ∀ r' ∈ t.rows, column r' ≠ column r) : ((t.insert r h).rows.map column).Nodup := by
  rw [insert,List.map_append,List.nodup_append]
  refine ⟨ht,List.nodup_singleton _,?_⟩
  rintro c hc c' hc' rfl
  obtain ⟨r',hr',rfl⟩ := List.mem_map.mp hc
  exact hfresh r' hr' (List.mem_singleton.mp hc')

/-- `INSERT .. ON CONFLICT (key) DO UPDATE` of the whole row. -/
def upsert (t : Table key) (r : ρ) : Table key :=
  if h : t.lookup (key r) = none then t.insert r h
  else t.updateWhere (fun _ => true) (fun r' => if key r' = key r then r else r') fun r' => by
    by_cases hk : key r' = key r <;> simp [hk]

theorem lookup_eq_some {k : κ} : t.lookup k = some r ↔ r ∈ t.rows ∧ key r = k := by
  constructor
  · intro h
    exact ⟨List.mem_of_find?_eq_some h,by simpa using List.find?_some h⟩
  · rintro ⟨hr,rfl⟩
    cases hl : t.lookup (key r) with
    | none =>
      have hno := List.find?_eq_none.mp hl r hr
      simp at hno
    | some r' =>
      have hr' := List.mem_of_find?_eq_some hl
      have hk : key r' = key r := by simpa using List.find?_some hl
      rw [eq_of_key hr' hr hk]

theorem lookup_eq_none {k : κ} : t.lookup k = none ↔ ∀ r ∈ t.rows, key r ≠ k := by
  simp [lookup]

theorem lookup_of_mem (h : r ∈ t.rows) : t.lookup (key r) = some r :=
  lookup_eq_some.mpr ⟨h,rfl⟩

theorem key_of_lookup {k : κ} (h : t.lookup k = some r) : key r = k :=
  (lookup_eq_some.mp h).2

@[simp] theorem lookup_updateWhere (t : Table key) (p : ρ → Bool) (f : ρ → ρ) (hf : ∀ r, key (f r) = key r) (k : κ) :
    (t.updateWhere p f hf).lookup k = (t.lookup k).map fun r => if p r then f r else r := by
  have hkey : ∀ r, key (if p r then f r else r) = key r := by
    intro r
    split
    · exact hf r
    · rfl
  simp only [lookup,updateWhere,List.find?_map,Function.comp_def,hkey]

theorem lookup_insert (t : Table key) (r : ρ) (h : t.lookup (key r) = none) (k : κ) :
    (t.insert r h).lookup k = if k = key r then some r else t.lookup k := by
  rw [lookup,insert,List.find?_append]
  by_cases hk : k = key r
  · subst hk
    rw [if_pos rfl,show t.rows.find? (fun r' => key r' = key r) = none from h]
    simp
  · rw [if_neg hk]
    cases hl : t.lookup k with
    | none =>
      rw [show t.rows.find? (fun r' => key r' = k) = none from hl]
      simp [Ne.symm hk]
    | some r' =>
      rw [show t.rows.find? (fun r' => key r' = k) = some r' from hl]
      rfl

/-- An UPDATE of the row that has just come in. -/
theorem rows_updateWhere_insert (t : Table key) (r : ρ) (h : t.lookup (key r) = none) {p : ρ → Bool}
    (hp : ∀ r', p r' = true ↔ key r' = key r) (f : ρ → ρ) (hf : ∀ r, key (f r) = key r) :
    ((t.insert r h).updateWhere p f hf).rows = t.rows ++ [f r] := by
  change (t.rows ++ [r]).map _ = _
  rw [List.map_append,List.map_singleton,if_pos ((hp r).mpr rfl)]
  refine congrArg (· ++ [f r]) ((List.map_congr_left fun r' hr' => ?_).trans (List.map_id t.rows))
  rw [if_neg fun hp' => lookup_eq_none.mp h r' hr' ((hp r').mp hp')]
  rfl

theorem lookup_deleteWhere (t : Table key) (p : ρ → Bool) (k : κ) :
    (t.deleteWhere p).lookup k = (t.lookup k).filter (!p ·) := by
  ext r
  rw [Option.filter_eq_some_iff,lookup_eq_some,lookup_eq_some,deleteWhere,List.mem_filter]
  tauto

theorem lookup_upsert (t : Table key) (r : ρ) (k : κ) :
    (t.upsert r).lookup k = if k = key r then some r else t.lookup k := by
  by_cases h : t.lookup (key r) = none
  · rw [upsert,dif_pos h,lookup_insert]
  · rw [upsert,dif_neg h,lookup_updateWhere]
    by_cases hk : k = key r
    · obtain ⟨r',hr'⟩ := Option.ne_none_iff_exists'.mp h
      rw [if_pos hk,hk,hr']
      simp [key_of_lookup hr']
    · rw [if_neg hk]
      cases hr' : t.lookup k with
      | none => rfl
      | some r' => simp [key_of_lookup hr',hk]

/-- A row that is there already changes nothing. -/
theorem rows_upsert_of_lookup (h : t.lookup (key r) = some r) : (t.upsert r).rows = t.rows := by
  rw [upsert,dif_neg (by simp [h])]
  refine (List.map_congr_left fun r' hr' => ?_).trans (List.map_id t.rows)
  rw [if_pos rfl]
  dsimp only
  split
  · rename_i hkey
    exact eq_of_key (lookup_eq_some.mp h).1 hr' hkey.symm
  · rfl

/-- A row taken out by its key and added again at the end. -/
def reinsert (t : Table key) (r : ρ) : Table key :=
  (t.deleteWhere fun r' => key r' = key r).insert r <| by
    rw [lookup_deleteWhere]
    refine Option.filter_eq_none_iff.mpr fun r' hr' => ?_
    simp [key_of_lookup hr']

theorem mem_reinsert {r r' : ρ} : r' ∈ (t.reinsert r).rows ↔ (r' ∈ t.rows ∧ key r' ≠ key r) ∨ r' = r := by
  simp [reinsert,insert,deleteWhere]

/-- The rows that distinct keys name have distinct keys. -/
theorem keys_filterMap_lookup (t : Table key) (ks : List κ) : ((ks.filterMap t.lookup).map key).Sublist ks := by
  induction ks with
  | nil => exact List.Sublist.slnil
  | cons k ks ih =>
    rw [List.filterMap_cons]
    cases hk : t.lookup k with
    | none => exact ih.cons k
    | some r =>
      rw [List.map_cons,key_of_lookup hk]
      exact ih.cons_cons k

end Table
end JustMail.Foundation
