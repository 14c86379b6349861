import JustMail.Postfix.MailAliases
import JustMail.Foundation.Expansion

/-! What a catch-all does to the mailboxes of its domain. -/
namespace JustMail.Postfix
open Foundation

section Texts
variable {c : CodeUnit}

/-- No separator, and lower case. -/
structure PlainUnit (c : CodeUnit) : Prop where
  notAt : c ≠ AT
  notComma : c ≠ COMMA
  lower : asciiLower c = c

/-- The classes of local parts and hostnames hold plain units only. -/
private theorem plainUnit_of_class {marks : JsString}
    (hmarks : ∀ c ∈ marks, c ≠ AT ∧ c ≠ COMMA ∧ asciiLower c = c)
    (h : (isAlphanumeric c || marks.contains c) = true) : PlainUnit c := by
  rcases (Bool.or_eq_true _ _).mp h with halnum | hmark
  · simp only [isAlphanumeric,Bool.or_eq_true,Bool.and_eq_true,decide_eq_true_eq] at halnum
    refine ⟨?_,?_,if_neg (by grind)⟩
    · rintro rfl
      revert halnum
      decide
    · rintro rfl
      revert halnum
      decide
  · obtain ⟨hat,hcomma,hlower⟩ := hmarks c (List.contains_iff_mem.mp hmark)
    exact ⟨hat,hcomma,hlower⟩

theorem LocalPart.plain (l : LocalPart) (hc : c ∈ l.text) : PlainUnit c :=
  plainUnit_of_class (by decide) (l.units c hc)

theorem Hostname.plain (n : Hostname) (hc : c ∈ n.text) : PlainUnit c :=
  plainUnit_of_class (by decide) (n.units c hc)

theorem LocalPart.at_notMem (l : LocalPart) : AT ∉ l.text := fun h => (l.plain h).notAt rfl
theorem Hostname.at_notMem (n : Hostname) : AT ∉ n.text := fun h => (n.plain h).notAt rfl

theorem citext_eq_self {s : JsString} (h : ∀ c ∈ s, asciiLower c = c) : citext s = s :=
  (List.map_congr_left h).trans (List.map_id s)

theorem citext_catchAllKey (n : Hostname) : citext (AT :: n.text) = AT :: n.text := by
  refine citext_eq_self fun c hc => ?_
  rcases List.mem_cons.mp hc with rfl | hc
  · rfl
  · exact (n.plain hc).lower

theorem citext_address (l : LocalPart) (d : DomainRow) : citext (address l d) = address l d := by
  have hl : citext l.text = l.text := citext_eq_self fun c hc => (l.plain hc).lower
  have hn := citext_catchAllKey d.name
  rw [citext] at hl hn ⊢
  rw [address,List.map_append,hl,hn]

theorem comma_notMem_address (l : LocalPart) (d : DomainRow) : COMMA ∉ address l d := by
  intro h
  rcases List.mem_append.mp h with hl | hn
  · exact (l.plain hl).notComma rfl
  · rcases List.mem_cons.mp hn with hat | hn
    · exact absurd hat (by decide)
    · exact (d.name.plain hn).notComma rfl

theorem mailText_inj {l l' : LocalPart} {n n' : Hostname} (h : l.text ++ AT :: n.text = l'.text ++ AT :: n'.text) : l = l' ∧ n = n' := by
  have hcut := congrArg (cut AT) h
  rw [cut_append l.at_notMem,cut_append l'.at_notMem] at hcut
  obtain ⟨hl,hn⟩ := Prod.mk.inj (Option.some.inj hcut)
  exact ⟨LocalPart.ext hl,Hostname.ext hn⟩

theorem address_inj {l l' : LocalPart} {d d' : DomainRow} (h : address l d = address l' d') :
    l = l' ∧ d.name = d'.name := mailText_inj h

theorem catchAllKey_ne_address (n : Hostname) (l : LocalPart) (d : DomainRow) : AT :: n.text ≠ address l d := by
  intro h
  have hcut := congrArg (cut AT) h
  rw [address,cut_append l.at_notMem,← List.nil_append (AT :: n.text),cut_append List.not_mem_nil] at hcut
  have hempty : [] = l.text := (Prod.mk.inj (Option.some.inj hcut)).1
  have hlength := l.length.1
  simp [← hempty] at hlength

theorem domainKey_address (l : LocalPart) (d : DomainRow) : domainKey (address l d) = some (AT :: d.name.text) := by
  have hat : AT ∈ address l d := by simp [address]
  have htake : (address l d).rtakeWhile (· ≠ AT) = d.name.text := by
    have hname : ∀ c ∈ d.name.text.reverse, decide (c ≠ AT) = true := by
      intro c hc
      exact decide_eq_true fun he => d.name.at_notMem (he ▸ List.mem_reverse.mp hc)
    rw [address,List.rtakeWhile,List.reverse_append,List.reverse_cons,List.append_assoc,
      List.takeWhile_append_of_pos hname]
    simp
  rw [domainKey,if_pos hat,htake]

end Texts

section Entries
variable {db : MailDb} {m : MailboxRow} {d : DomainRow} {view : List AliasEntry} {key c : JsString}

theorem mem_lookupAddresses : c ∈ lookupAddresses view key ↔
    ∃ e ∈ view, citext e.source = citext key ∧ ∃ piece ∈ e.destinations.splitOn COMMA, piece ≠ [] ∧ citext piece = c := by
  simp only [lookupAddresses,aliasesQuery,List.mem_map,List.mem_filter,List.mem_flatMap,decide_eq_true_eq]
  constructor
  · rintro ⟨piece,⟨⟨dests,⟨e,⟨he,hsource⟩,rfl⟩,hpiece⟩,hne⟩,rfl⟩
    exact ⟨e,he,hsource,piece,hpiece,by simpa using hne,rfl⟩
  · rintro ⟨e,he,hsource,piece,hpiece,hne,rfl⟩
    exact ⟨piece,⟨⟨_,⟨e,⟨he,hsource⟩,rfl⟩,hpiece⟩,by simpa using hne⟩,rfl⟩

theorem mem_joinDomains {ρ : Type} {rows : List ρ} {domainId : ρ → Nat} {branch : ρ → DomainRow → Option AliasEntry}
    {e : AliasEntry} : e ∈ joinDomains db rows domainId branch ↔
      ∃ r ∈ rows, ∃ d, db.domains.lookup (domainId r) = some d ∧ branch r d = some e := by
  simp only [joinDomains,List.mem_filterMap,Option.bind_eq_some_iff]

/-- Where the rows of the view come from. -/
theorem source_cases {e : AliasEntry} (h : e ∈ mailAliases db) :
    (∃ a ∈ db.aliases.rows, ∃ d, db.domains.lookup a.domainId = some d ∧ e.source = address a.source d) ∨
    (∃ m ∈ db.mailboxes.rows, m.forwardTo ≠ [] ∧
      ∃ d, db.domains.lookup m.domainId = some d ∧ e.source = address m.localPart d) ∨
    (∃ d ∈ db.domains.rows, ∃ target ∈ d.catchAllTarget, e = ⟨AT :: d.name.text,target.text⟩) ∨
    ∃ g ∈ db.groups.rows, ∃ d, db.domains.lookup g.domainId = some d ∧ e.source = address g.localPart d := by
  rw [mailAliases,List.mem_append,List.mem_append,List.mem_append,mem_joinDomains,mem_joinDomains,mem_joinDomains,
    List.mem_filterMap] at h
  rcases h with ((⟨a,ha,d,hd,he⟩ | ⟨m,hm,d,hd,he⟩) | ⟨d,hd,he⟩) | ⟨g,hg,d,hd,he⟩
  · obtain ⟨-,he⟩ := Option.ite_none_right_eq_some.mp he
    cases he
    exact .inl ⟨a,ha,d,hd,rfl⟩
  · obtain ⟨⟨-,-,hforward⟩,he⟩ := Option.ite_none_right_eq_some.mp he
    cases he
    exact .inr (.inl ⟨m,hm,List.ne_nil_of_length_pos hforward,d,hd,rfl⟩)
  · obtain ⟨-,he⟩ := Option.ite_none_right_eq_some.mp he
    obtain ⟨target,htarget,rfl⟩ := Option.map_eq_some_iff.mp he
    exact .inr (.inr (.inl ⟨d,hd,target,htarget,rfl⟩))
  · obtain ⟨-,he⟩ := Option.ite_none_right_eq_some.mp he
    cases he
    exact .inr (.inr (.inr ⟨g,hg,d,hd,rfl⟩))

theorem domain_of_name {d' : DomainRow} (hd : d ∈ db.domains.rows) (hd' : d' ∈ db.domains.rows)
    (hname : d.name = d'.name) : d = d' := List.inj_on_of_nodup_map db.domainName hd hd' hname

/-- An active mailbox on an active domain. -/
structure Serves (db : MailDb) (m : MailboxRow) (d : DomainRow) : Prop where
  mailbox : m ∈ db.mailboxes.rows
  domain : db.domains.lookup m.domainId = some d
  active : m.status = .active
  domainActive : d.status = .active

/-- One with no forwarding and no alias or group of its address. -/
structure Plain (db : MailDb) (m : MailboxRow) (d : DomainRow) : Prop extends Serves db m d where
  noForward : m.forwardTo = []
  noAlias : ∀ a ∈ db.aliases.rows, ∀ d', db.domains.lookup a.domainId = some d' → address a.source d' ≠ address m.localPart d
  noGroup : ∀ g ∈ db.groups.rows, ∀ d', db.domains.lookup g.domainId = some d' → address g.localPart d' ≠ address m.localPart d

/-- One that forwards and keeps a copy. -/
structure KeepsCopy (db : MailDb) (m : MailboxRow) (d : DomainRow) : Prop extends Serves db m d where
  forwards : m.forwardTo ≠ []
  keepCopy : m.forwardKeepCopy = true

theorem Serves.domainRow (h : Serves db m d) : d ∈ db.domains.rows := (Table.lookup_eq_some.mp h.domain).1

theorem Serves.unique (h : Serves db m d) {m' : MailboxRow} {d' : DomainRow} (hm' : m' ∈ db.mailboxes.rows)
    (hd' : db.domains.lookup m'.domainId = some d') (haddress : address m'.localPart d' = address m.localPart d) :
    m' = m := by
  obtain ⟨hlocal,hname⟩ := address_inj haddress
  have hdomain : d' = d := domain_of_name (Table.lookup_eq_some.mp hd').1 h.domainRow hname
  have hid : m'.domainId = m.domainId := by
    rw [← Table.key_of_lookup hd',← Table.key_of_lookup h.domain,hdomain]
  exact List.inj_on_of_nodup_map db.mailboxAddress hm' h.mailbox (by simp [hid,hlocal])

/-- The view has no row for the address of a plain mailbox. -/
theorem Plain.lookup_address (h : Plain db m d) : lookupAddresses (mailAliases db) (address m.localPart d) = [] := by
  apply List.eq_nil_iff_forall_not_mem.mpr
  intro c hc
  obtain ⟨e,he,hsource,-⟩ := mem_lookupAddresses.mp hc
  rw [citext_address] at hsource
  rcases source_cases he with ⟨a,ha,d',hd',hes⟩ | ⟨m',hm',hforward,d',hd',hes⟩ | ⟨d',-,target,-,rfl⟩ | ⟨g,hg,d',hd',hes⟩
  · rw [hes,citext_address] at hsource
    exact h.noAlias a ha d' hd' hsource
  · rw [hes,citext_address] at hsource
    exact hforward (h.unique hm' hd' hsource ▸ h.noForward)
  · rw [citext_catchAllKey] at hsource
    exact catchAllKey_ne_address _ _ _ hsource
  · rw [hes,citext_address] at hsource
    exact h.noGroup g hg d' hd' hsource

/-- The row `'@domain'` lists the catch-all target alone. -/
theorem Serves.lookup_catchAll (h : Serves db m d) {c : JsString} :
    c ∈ lookupAddresses (mailAliases db) (AT :: d.name.text) ↔ ∃ target ∈ d.catchAllTarget, citext target.text = c := by
  rw [mem_lookupAddresses,citext_catchAllKey]
  constructor
  · rintro ⟨e,he,hsource,piece,hpiece,-,rfl⟩
    have hno : ∀ l d', e.source ≠ address l d' := by
      intro l d' hes
      rw [hes,citext_address] at hsource
      exact catchAllKey_ne_address _ _ _ hsource.symm
    rcases source_cases he with ⟨a,-,d',-,hes⟩ | ⟨m',-,-,d',-,hes⟩ | ⟨d',hd',target,htarget,rfl⟩ | ⟨g,-,d',-,hes⟩
    · exact absurd hes (hno _ _)
    · exact absurd hes (hno _ _)
    · rw [citext_catchAllKey] at hsource
      obtain rfl := domain_of_name hd' h.domainRow (Hostname.ext (List.cons.inj hsource).2)
      rw [List.splitOn_eq_singleton target.noComma,List.mem_singleton] at hpiece
      exact ⟨target,htarget,by rw [hpiece]⟩
    · exact absurd hes (hno _ _)
  · rintro ⟨target,htarget,rfl⟩
    have hentry : catchAllBranch d = some ⟨AT :: d.name.text,target.text⟩ := by
      simp [catchAllBranch,h.domainActive,Option.mem_def.mp htarget]
    refine ⟨⟨AT :: d.name.text,target.text⟩,?_,citext_catchAllKey d.name,target.text,?_,?_,rfl⟩
    · rw [mailAliases]
      exact List.mem_append_left _ (List.mem_append_right _ (List.mem_filterMap.mpr ⟨d,h.domainRow,hentry⟩))
    · rw [List.splitOn_eq_singleton target.noComma,List.mem_singleton]
    · exact List.ne_nil_of_length_pos target.length.1

theorem Plain.virtualAlias_eq (h : Plain db m d) :
    virtualAlias (mailAliases db) (address m.localPart d) =
      if lookupAddresses (mailAliases db) (AT :: d.name.text) = [] then none
      else some (lookupAddresses (mailAliases db) (AT :: d.name.text)) := by
  rw [virtualAlias,h.lookup_address,domainKey_address]
  rfl

/-- A plain mailbox gets its own mail exactly when the domain has no catch-all, or
one that names the mailbox itself. -/
theorem Plain.resolve_iff (h : Plain db m d) :
    resolve (virtualAlias (mailAliases db)) (address m.localPart d) = {address m.localPart d} ↔
      ∀ target ∈ d.catchAllTarget, citext target.text = address m.localPart d := by
  cases hcatch : d.catchAllTarget with
  | none =>
    have hnone : lookupAddresses (mailAliases db) (AT :: d.name.text) = [] := by
      apply List.eq_nil_iff_forall_not_mem.mpr
      intro c hc
      obtain ⟨target,htarget,-⟩ := h.lookup_catchAll.mp hc
      simp [hcatch] at htarget
    have hentry : virtualAlias (mailAliases db) (address m.localPart d) = none := by
      rw [h.virtualAlias_eq,if_pos hnone]
    exact iff_of_true (resolve_of_none hentry) (by simp)
  | some target =>
    have hlist : ∀ c, c ∈ lookupAddresses (mailAliases db) (AT :: d.name.text) ↔ citext target.text = c := by
      intro c
      rw [h.lookup_catchAll,hcatch]
      simp
    have hmem := (hlist (citext target.text)).mpr rfl
    have hentry : virtualAlias (mailAliases db) (address m.localPart d) =
        some (lookupAddresses (mailAliases db) (AT :: d.name.text)) := by
      rw [h.virtualAlias_eq,if_neg (List.ne_nil_of_mem hmem)]
    rw [resolve_eq_self_iff hentry hmem fun c hc => ((hlist c).mp hc).symm]
    simp

theorem KeepsCopy.listed (h : KeepsCopy db m d) :
    ∃ ds, virtualAlias (mailAliases db) (address m.localPart d) = some ds ∧ address m.localPart d ∈ ds := by
  have hmem : address m.localPart d ∈ lookupAddresses (mailAliases db) (address m.localPart d) := by
    have hentry : forwardBranch m d = some ⟨address m.localPart d,
        arrayToString (m.forwardTo.map (·.text) ++ [address m.localPart d])⟩ := by
      simp [forwardBranch,h.active,h.domainActive,h.keepCopy,List.length_pos_iff.mpr h.forwards]
    have hnoComma : ∀ text ∈ m.forwardTo.map (·.text) ++ [address m.localPart d], COMMA ∉ text := by
      intro text htext
      rcases List.mem_append.mp htext with hforward | hself
      · obtain ⟨email,-,rfl⟩ := List.mem_map.mp hforward
        exact email.noComma
      · rw [List.mem_singleton.mp hself]
        exact comma_notMem_address _ _
    refine mem_lookupAddresses.mpr ⟨⟨address m.localPart d,arrayToString (m.forwardTo.map (·.text) ++
      [address m.localPart d])⟩,?_,rfl,address m.localPart d,?_,?_,citext_address _ _⟩
    · rw [mailAliases]
      exact List.mem_append_left _ (List.mem_append_left _ (List.mem_append_right _
        (mem_joinDomains.mpr ⟨m,h.mailbox,d,h.domain,hentry⟩)))
    · rw [arrayToString,List.splitOn_intercalate COMMA hnoComma (by simp)]
      simp
    · simp [address]
  have hne := List.ne_nil_of_mem hmem
  exact ⟨_,by rw [virtualAlias,if_neg hne,if_neg hne],hmem⟩

/-- No mailbox loses its own mail to the catch-all of its domain, and one that
keeps a copy is among the addresses its own row lists. -/
structure NeverShadowed (db : MailDb) : Prop where
  plain (m : MailboxRow) (d : DomainRow) : Plain db m d →
    resolve (virtualAlias (mailAliases db)) (address m.localPart d) = {address m.localPart d}
  keepsCopy (m : MailboxRow) (d : DomainRow) : KeepsCopy db m d →
    ∃ ds, virtualAlias (mailAliases db) (address m.localPart d) = some ds ∧ address m.localPart d ∈ ds

/-- Only a domain whose catch-all names its one plain mailbox, if it has any, leaves
the mailboxes their mail. -/
theorem never_shadowed_iff (db : MailDb) :
    NeverShadowed db ↔
      ∀ m d, Plain db m d → ∀ target ∈ d.catchAllTarget, citext target.text = address m.localPart d := by
  constructor
  · intro h m d hplain
    exact hplain.resolve_iff.mp (h.plain m d hplain)
  · intro h
    exact ⟨fun m d hplain => hplain.resolve_iff.mpr (h m d hplain),fun m d hkeeps => hkeeps.listed⟩

def exampleDomain : DomainRow :=
  ⟨1,⟨js "ex.com",by decide,by decide⟩,.active,some ⟨js "Inbox@ex.com",by decide,by decide⟩⟩

def exampleMailbox (id : Nat) (localPart : LocalPart) : MailboxRow := ⟨id,1,localPart,.active,[],true⟩

def ann : MailboxRow := exampleMailbox 1 ⟨js "ann",by decide,by decide⟩

def exampleDb : MailDb where
  domains := ⟨[exampleDomain],by decide⟩
  mailboxes := ⟨[ann,exampleMailbox 2 ⟨js "inbox",by decide,by decide⟩],by decide⟩
  aliases := .empty
  groups := .empty
  members := .empty
  domainName := by decide
  mailboxAddress := by decide
  aliasSource := List.nodup_nil
  groupAddress := List.nodup_nil

/-- Mail for the other mailbox ends in the catch-all. -/
theorem catch_all_shadows_mailbox :
    Plain exampleDb ann exampleDomain ∧
    resolve (virtualAlias (mailAliases exampleDb)) (js "ann@ex.com") = {js "inbox@ex.com"} ∧
    ¬NeverShadowed exampleDb := by
  have hplain : Plain exampleDb ann exampleDomain :=
    ⟨⟨List.mem_cons_self,rfl,rfl,rfl⟩,rfl,fun a ha => absurd ha List.not_mem_nil,fun g hg => absurd hg List.not_mem_nil⟩
  have hexpand : expand (virtualAlias (mailAliases exampleDb)) 3 (js "ann@ex.com") = some [js "inbox@ex.com"] := by
    decide +kernel
  have hresolve : resolve (virtualAlias (mailAliases exampleDb)) (js "ann@ex.com") = {js "inbox@ex.com"} := by
    apply Set.ext
    intro b
    rw [← mem_expand hexpand,List.mem_singleton,Set.mem_singleton_iff]
  refine ⟨hplain,hresolve,fun h => ?_⟩
  have hself : ({js "inbox@ex.com"} : Set JsString) = {js "ann@ex.com"} :=
    hresolve.symm.trans (h.plain ann exampleDomain hplain)
  exact absurd (Set.singleton_injective hself) (by decide)

end Entries
end JustMail.Postfix
