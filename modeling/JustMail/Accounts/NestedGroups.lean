import JustMail.Accounts.Provisioning
import JustMail.Foundation.Worklist

/-! Groups of groups in an LDAP directory: the groups that an entry belongs to through others,
and the role they give it. -/
namespace JustMail.Accounts
open Foundation

section Model
variable (cm : CaseMapping)

/-- A `Map` from the DN of a group to the groups it is a direct member of. -/
abbrev GroupParents := Table (Prod.fst : JsString × List JsString → JsString)

/-- An entry of the search for groups, with the values of its member attribute. -/
structure GroupEntry where
  dn : JsString
  memberOf : List JsString

/-- `searchGroupParents`, once the search has returned. A later entry replaces an earlier one. -/
def searchGroupParents (entries : List GroupEntry) : GroupParents :=
  entries.foldl (fun parents raw => parents.upsert (normalizeDn cm raw.dn,raw.memberOf.map (normalizeDn cm))) .empty

variable (parents : GroupParents)

/-- `parents.get(g) ?? []`, each of them normalised. -/
def parentGroups (g : JsString) : List JsString := ((parents.lookup g).map (·.2)).getD [] |>.map (normalizeDn cm)

/-- `expandGroups`. The bound on the turns of its loop is never met. -/
def expandGroups (direct : List JsString) : Option (List JsString) :=
  explore (parentGroups cm parents) (direct.length + (parents.rows.flatMap (·.2)).length) [] (direct.map (normalizeDn cm))

/-- A normalised DN that is reached from a direct group through `parents`. -/
def BelongsTo (direct : List JsString) (g : JsString) : Prop :=
  ∃ dn ∈ direct, Reaches (parentGroups cm parents) (normalizeDn cm dn) g

def MapsGroup (entry : JsString × OrgRole) (g : JsString) : Prop := normalizeDn cm entry.1 = normalizeDn cm g

/-- The role is the highest of those that the map gives to one of the groups, or the default where it gives none. -/
structure HighestRole (groups : JsString → Prop) (roleMap : List (JsString × OrgRole)) (defaultRole role : OrgRole) : Prop where
  unmapped : (∀ entry ∈ roleMap, ∀ g, groups g → ¬MapsGroup cm entry g) → role = defaultRole
  mapped : (∃ entry ∈ roleMap, ∃ g, groups g ∧ MapsGroup cm entry g) →
    ∃ entry ∈ roleMap, (∃ g, groups g ∧ MapsGroup cm entry g) ∧ entry.2 = role
  highest : ∀ entry ∈ roleMap, ∀ g, groups g → MapsGroup cm entry g → entry.2.rank ≤ role.rank

end Model

section Expansion
variable {cm : CaseMapping} {parents : GroupParents} {direct groups : List JsString}

theorem parentGroups_mem {g : JsString} (h : parentGroups cm parents g ≠ []) : g ∈ parents.rows.map Prod.fst := by
  rw [parentGroups] at h
  cases hrow : parents.lookup g with
  | none => simp [hrow] at h
  | some row =>
    obtain ⟨hmem,rfl⟩ := Table.lookup_eq_some.mp hrow
    exact List.mem_map_of_mem hmem

theorem length_unexplored :
    (unexplored (parentGroups cm parents) (parents.rows.map Prod.fst) []).length = (parents.rows.flatMap (·.2)).length := by
  have hall : ((parents.rows.map Prod.fst).filter fun g => g ∉ ([] : List JsString)) = parents.rows.map Prod.fst :=
    List.filter_eq_self.mpr fun _ _ => by simp
  unfold unexplored
  simp only [List.not_mem_nil,not_false_eq_true,decide_true] at hall ⊢
  rw [hall,List.flatMap_map,List.length_flatMap,List.length_flatMap]
  congr 1
  refine List.map_congr_left fun row hrow => ?_
  rw [parentGroups,Table.lookup_of_mem hrow]
  simp

/-- The loop comes to its end. -/
theorem expandGroups_isSome (parents : GroupParents) (direct : List JsString) : (expandGroups cm parents direct).isSome = true := by
  refine explore_enough (fun g => parentGroups_mem) ?_
  rw [length_unexplored,List.length_map]

theorem mem_expandGroups (h : expandGroups cm parents direct = some groups) :
    groups.Nodup ∧ ∀ g, g ∈ groups ↔ BelongsTo cm parents direct g := by
  obtain ⟨hnodup,hmem⟩ := explore_found h
  refine ⟨hnodup,fun g => (hmem g).trans ?_⟩
  simp [BelongsTo]

end Expansion

section Roles
variable {cm : CaseMapping} {roleMap : List (JsString × OrgRole)} {groups : List JsString} {entry : JsString × OrgRole} {g : JsString}

/-- Where no two keys are the same, the entry of a group is found. -/
theorem mappedRole_eq_some (hkeys : (roleMap.map fun entry => normalizeDn cm entry.1).Nodup) {role : OrgRole} :
    mappedRole cm roleMap g = some role ↔ ∃ entry ∈ roleMap, MapsGroup cm entry g ∧ entry.2 = role := by
  rw [mappedRole,Option.map_eq_some_iff]
  constructor
  · rintro ⟨entry,hfind,hrole⟩
    exact ⟨entry,List.mem_reverse.mp (List.mem_of_find?_eq_some hfind),by simpa [MapsGroup] using List.find?_some hfind,hrole⟩
  · rintro ⟨entry,hmem,hmaps,hrole⟩
    cases hfind : roleMap.reverse.find? fun entry => normalizeDn cm entry.1 == normalizeDn cm g with
    | none =>
      have hnone := List.find?_eq_none.mp hfind entry (List.mem_reverse.mpr hmem)
      exact absurd (beq_iff_eq.mpr hmaps) hnone
    | some entry' =>
      have hmem' : entry' ∈ roleMap := List.mem_reverse.mp (List.mem_of_find?_eq_some hfind)
      have hmaps' : normalizeDn cm entry'.1 = normalizeDn cm g := by simpa using List.find?_some hfind
      have hsame : entry' = entry := List.inj_on_of_nodup_map hkeys hmem' hmem (hmaps'.trans hmaps.symm)
      exact ⟨entry,by rw [hsame],hrole⟩

structure BestRole (roles : List OrgRole) (best : Option OrgRole) : Prop where
  none : best = none → roles = []
  mem : ∀ role ∈ best, role ∈ roles
  highest : ∀ role ∈ roles, ∃ top ∈ best, role.rank ≤ top.rank

theorem BestRole.snoc {roles : List OrgRole} {best : Option OrgRole} (h : BestRole roles best) (role : OrgRole) :
    BestRole (roles ++ [role]) (some (betterRole best role)) := by
  cases best with
  | none =>
    obtain rfl := h.none rfl
    exact ⟨nofun,by simp [betterRole],by simp [betterRole]⟩
  | some top =>
    have hmem := h.mem top rfl
    have hhighest : ∀ role ∈ roles, role.rank ≤ top.rank := by
      intro role hrole
      obtain ⟨top',htop',hle⟩ := h.highest role hrole
      cases htop'
      exact hle
    by_cases hlt : top.rank < role.rank
    · rw [betterRole,if_pos hlt]
      refine ⟨nofun,by simp,fun role' hrole' => ⟨role,rfl,?_⟩⟩
      rcases List.mem_append.mp hrole' with hold | hnew
      · exact (hhighest role' hold).trans (Nat.le_of_lt hlt)
      · rw [List.mem_singleton.mp hnew]
    · rw [betterRole,if_neg hlt]
      refine ⟨nofun,by simpa using .inl hmem,fun role' hrole' => ⟨top,rfl,?_⟩⟩
      rcases List.mem_append.mp hrole' with hold | hnew
      · exact hhighest role' hold
      · rw [List.mem_singleton.mp hnew]
        exact Nat.le_of_not_lt hlt

/-- The loop of `resolveRole` over the groups keeps the best role. -/
theorem bestRole_foldl (cm : CaseMapping) (roleMap : List (JsString × OrgRole)) (groups : List JsString) :
    BestRole (groups.filterMap (mappedRole cm roleMap))
      (groups.foldl (fun best g => ((mappedRole cm roleMap g).map (betterRole best)).or best) none) := by
  induction groups using List.reverseRecOn with
  | nil => exact ⟨fun _ => rfl,nofun,nofun⟩
  | append_singleton groups g ih =>
    rw [List.filterMap_append,List.foldl_append,List.foldl_cons,List.foldl_nil,List.filterMap_cons]
    cases mappedRole cm roleMap g with
    | none =>
      rw [List.filterMap_nil,List.append_nil]
      exact ih
    | some role => exact ih.snoc role

theorem resolveRole_highest (hkeys : (roleMap.map fun entry => normalizeDn cm entry.1).Nodup) (defaultRole : OrgRole) :
    HighestRole cm (· ∈ groups) roleMap defaultRole (resolveRole cm groups roleMap defaultRole) := by
  have hbest := bestRole_foldl cm roleMap groups
  rw [resolveRole]
  generalize groups.foldl (fun best g => ((mappedRole cm roleMap g).map (betterRole best)).or best) none = best at hbest ⊢
  have hrole : ∀ entry ∈ roleMap, ∀ g ∈ groups, MapsGroup cm entry g → entry.2 ∈ groups.filterMap (mappedRole cm roleMap) := by
    intro entry hentry g hg hmaps
    exact List.mem_filterMap.mpr ⟨g,hg,(mappedRole_eq_some hkeys).mpr ⟨entry,hentry,hmaps,rfl⟩⟩
  cases best with
  | none =>
    have hnone := hbest.none rfl
    rw [hnone] at hrole
    refine ⟨fun _ => rfl,?_,fun entry hentry g hg hmaps => absurd (hrole entry hentry g hg hmaps) List.not_mem_nil⟩
    rintro ⟨entry,hentry,g,hg,hmaps⟩
    exact absurd (hrole entry hentry g hg hmaps) List.not_mem_nil
  | some top =>
    obtain ⟨g,hg,htop⟩ := List.mem_filterMap.mp (hbest.mem top rfl)
    obtain ⟨entry,hentry,hmaps,hentryTop⟩ := (mappedRole_eq_some hkeys).mp htop
    refine ⟨fun hunmapped => absurd hmaps (hunmapped entry hentry g hg),fun _ => ⟨entry,hentry,⟨g,hg,hmaps⟩,hentryTop⟩,?_⟩
    intro entry' hentry' g' hg' hmaps'
    obtain ⟨top',htop',hle⟩ := hbest.highest _ (hrole entry' hentry' g' hg' hmaps')
    cases htop'
    exact hle

/-- A user has the highest of the roles of the groups that it belongs to, directly or through others. -/
theorem nested_group_roles (cm : CaseMapping) (parents : GroupParents) (direct : List JsString) :
    ∃ groups, expandGroups cm parents direct = some groups ∧ groups.Nodup ∧ (∀ g, g ∈ groups ↔ BelongsTo cm parents direct g) ∧
    ∀ (roleMap : List (JsString × OrgRole)) (defaultRole : OrgRole) (listed : List JsString),
      (roleMap.map fun entry => normalizeDn cm entry.1).Nodup → (∀ g, g ∈ listed ↔ g ∈ groups) →
      HighestRole cm (BelongsTo cm parents direct) roleMap defaultRole (resolveRole cm listed roleMap defaultRole) := by
  obtain ⟨groups,hgroups⟩ := Option.isSome_iff_exists.mp (expandGroups_isSome parents direct)
  obtain ⟨hnodup,hmem⟩ := mem_expandGroups hgroups
  refine ⟨groups,hgroups,hnodup,hmem,fun roleMap defaultRole listed hkeys hlisted => ?_⟩
  have hbelongs : BelongsTo cm parents direct = (· ∈ listed) := by
    funext g
    exact propext ((hmem g).symm.trans (hlisted g).symm)
  rw [hbelongs]
  exact resolveRole_highest hkeys defaultRole

/-- Two groups that are in each other, and a third that one of them is in. -/
def staffGroups : List GroupEntry := [⟨js "Devs",[js "staff"]⟩,⟨js "staff",[js "devs",js "all"]⟩]

theorem devs_are_in_all : HighestRole asciiCase (BelongsTo asciiCase (searchGroupParents asciiCase staffGroups) [js "devs"])
    [(js "ALL",.admin),(js "devs",.member)] .viewer .admin := by
  obtain ⟨groups,hgroups,-,-,hrole⟩ := nested_group_roles asciiCase (searchGroupParents asciiCase staffGroups) [js "devs"]
  have hfound : groups = [js "devs",js "staff",js "all"] := Option.some.inj (hgroups.symm.trans (by decide))
  have hadmin : resolveRole asciiCase groups [(js "ALL",.admin),(js "devs",.member)] .viewer = .admin := by
    rw [hfound]
    decide
  have h := hrole [(js "ALL",.admin),(js "devs",.member)] .viewer groups (by decide) fun _ => Iff.rfl
  rwa [hadmin] at h

end Roles
end JustMail.Accounts
