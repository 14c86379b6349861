import JustMail.Accounts.Directory
import JustMail.Dkim.DnsReconcile
import JustMail.Foundation.SqlJoin
import JustMail.Postfix.MailAliases

/-! `SecurityService.score`: the counts over domains and their records that the factors of the score rest on. -/
namespace JustMail.Security
open Foundation Accounts Dkim Postfix

structure DomainRow where
  id : Nat
  orgId : Nat
  status : DomainStatus

inductive CheckStatus where
  | unknown | pending | propagating | ok | drifted | missing | error
  deriving DecidableEq

/-- A row of `dns_records`, as far as the score reads it. -/
structure DnsRecordRow where
  domainId : Nat
  purpose : Purpose
  name : JsString
  type : JsString
  checkStatus : CheckStatus

/-- `UNIQUE (domain_id, purpose, name, type)`. -/
def DnsRecordRow.key (r : DnsRecordRow) : Nat × Purpose × JsString × JsString := (r.domainId,r.purpose,r.name,r.type)

structure ScoreDb where
  accounts : AccountDb
  domains : Table DomainRow.id
  dnsRecords : Table DnsRecordRow.key

inductive FactorId where
  | verified | spf | dkim | dmarc | mtaSts | tlsRpt
  deriving DecidableEq

structure Factor where
  id : FactorId
  label : JsString
  ok : Bool
  weight : Nat
  deriving DecidableEq

structure SecurityScore where
  score : Nat
  factors : List Factor

/-- The columns of the one row that the query returns. -/
structure ScoreCounts where
  domains : Nat
  verified : Nat
  spf : Nat
  dkim : Nat
  dmarc : Nat
  mtaSts : Nat
  tlsRpt : Nat

/-- `domains d LEFT JOIN dns_records r ON r.domain_id = d.id WHERE d.org_id = $1`. -/
def scoreRows (db : ScoreDb) (orgId : Nat) : List (DomainRow × Option DnsRecordRow) :=
  (leftJoin (fun d r => r.domainId = d.id) db.domains.rows db.dnsRecords.rows).filter fun x => x.1.orgId = orgId

def isOk (purpose : Purpose) (r : DnsRecordRow) : Bool := r.purpose = purpose && r.checkStatus = .ok

/-- `count(DISTINCT d.id) FILTER (WHERE r.purpose = .. AND r.check_status = 'ok')`. -/
def countOk (db : ScoreDb) (orgId : Nat) (purpose : Purpose) : Nat :=
  countDistinct (fun x => x.1.id) (fun x => x.2.any (isOk purpose)) (scoreRows db orgId)

def scoreCounts (db : ScoreDb) (orgId : Nat) : ScoreCounts where
  domains := (scoreRows db orgId).countP fun x => x.1.status ≠ .suspended
  verified := (scoreRows db orgId).countP fun x => x.1.status = .active
  spf := countOk db orgId .spf
  dkim := countOk db orgId .dkim
  dmarc := countOk db orgId .dmarc
  mtaSts := countOk db orgId .mtaSts
  tlsRpt := countOk db orgId .tlsRpt

def factorsOf (r : ScoreCounts) : List Factor :=
  [⟨.verified,js "Domains verified",r.verified = r.domains && 0 < r.domains,20⟩,
    ⟨.spf,js "SPF present",r.spf = r.domains && 0 < r.domains,15⟩,
    ⟨.dkim,js "DKIM signing",r.dkim = r.domains && 0 < r.domains,20⟩,
    ⟨.dmarc,js "DMARC policy",r.dmarc = r.domains && 0 < r.domains,20⟩,
    ⟨.mtaSts,js "MTA-STS",r.mtaSts = r.domains && 0 < r.domains,15⟩,
    ⟨.tlsRpt,js "TLS-RPT",r.tlsRpt = r.domains && 0 < r.domains,10⟩]

def score (db : ScoreDb) (now orgId userId : Nat) : Except AccessError SecurityScore := do
  let _ ← requireRole db.accounts now orgId userId .viewer
  let factors := factorsOf (scoreCounts db orgId)
  return ⟨factors.foldl (fun acc f => acc + if f.ok then f.weight else 0) 0,factors⟩

section Purpose
variable (db : ScoreDb) (orgId : Nat)

def domainsOf : List DomainRow := db.domains.rows.filter (·.orgId = orgId)

def liveDomains : List DomainRow := (domainsOf db orgId).filter (·.status ≠ .suspended)

def hasOk (purpose : Purpose) (d : DomainRow) : Bool := db.dnsRecords.rows.any fun r => r.domainId = d.id && isOk purpose r

/-- What the mark of a factor is to say. -/
def Deserved : FactorId → Prop
  | .verified => liveDomains db orgId ≠ [] ∧ ∀ d ∈ liveDomains db orgId, d.status = .active
  | .spf => liveDomains db orgId ≠ [] ∧ ∀ d ∈ liveDomains db orgId, hasOk db .spf d = true
  | .dkim => liveDomains db orgId ≠ [] ∧ ∀ d ∈ liveDomains db orgId, hasOk db .dkim d = true
  | .dmarc => liveDomains db orgId ≠ [] ∧ ∀ d ∈ liveDomains db orgId, hasOk db .dmarc d = true
  | .mtaSts => liveDomains db orgId ≠ [] ∧ ∀ d ∈ liveDomains db orgId, hasOk db .mtaSts d = true
  | .tlsRpt => liveDomains db orgId ≠ [] ∧ ∀ d ∈ liveDomains db orgId, hasOk db .tlsRpt d = true

/-- The records of the live domains, but for one of each domain that has any. -/
def surplus : Nat := ((liveDomains db orgId).map fun d => db.dnsRecords.rows.countP (fun r => r.domainId = d.id) - 1).sum

def lacking (purpose : Purpose) : Nat := (liveDomains db orgId).countP fun d => !hasOk db purpose d

def suspendedOk (purpose : Purpose) : Nat := ((domainsOf db orgId).filter (·.status = .suspended)).countP (hasOk db purpose)

/-- The join counts as if it had one row for each live domain and none for the others. -/
def JoinHarmless (purpose : Purpose) : Prop :=
  liveDomains db orgId = [] ∨ (suspendedOk db orgId purpose = surplus db orgId + lacking db orgId purpose ↔ lacking db orgId purpose = 0)

def scoredPurposes : List Purpose := [.spf,.dkim,.dmarc,.mtaSts,.tlsRpt]

/-- The mark of each factor says what it is to say. -/
def CountsDomains (s : SecurityScore) : Prop := ∀ f ∈ s.factors, f.ok = true ↔ Deserved db orgId f.id

end Purpose

section Counts
variable {db : ScoreDb} {orgId : Nat} {purpose : Purpose}

theorem scoreRows_eq (db : ScoreDb) (orgId : Nat) :
    scoreRows db orgId = leftJoin (fun d r => r.domainId = d.id) (domainsOf db orgId) db.dnsRecords.rows :=
  filter_leftJoin (fun d : DomainRow => decide (d.orgId = orgId)) _ _

theorem domains_eq (db : ScoreDb) (orgId : Nat) : (scoreCounts db orgId).domains = (liveDomains db orgId).length + surplus db orgId := by
  have hcount : (scoreCounts db orgId).domains =
      ((liveDomains db orgId).map fun d => max 1 (db.dnsRecords.rows.countP fun r => r.domainId = d.id)).sum := by
    change (scoreRows db orgId).countP _ = _
    rw [scoreRows_eq]
    exact countP_leftJoin (fun d : DomainRow => decide (d.status ≠ .suspended)) _ _
  rw [hcount,surplus]
  induction liveDomains db orgId with
  | nil => rfl
  | cons d ds ih =>
    rw [List.map_cons,List.sum_cons,ih,List.map_cons,List.sum_cons,List.length_cons]
    omega

theorem domains_pos : 0 < (scoreCounts db orgId).domains ↔ liveDomains db orgId ≠ [] := by
  rw [domains_eq]
  cases hlive : liveDomains db orgId with
  | nil => simp [surplus,hlive]
  | cons d ds => exact iff_of_true (Nat.add_pos_left (Nat.succ_pos _) _) (List.cons_ne_nil d ds)

/-- Each live domain has a row, so the counts differ where one is not active. -/
theorem verified_eq_iff : (scoreCounts db orgId).verified = (scoreCounts db orgId).domains ↔
    ∀ d ∈ liveDomains db orgId, d.status = .active := by
  have hlive : (scoreRows db orgId).filter (fun x => x.1.status ≠ .suspended) =
      leftJoin (fun d r => r.domainId = d.id) (liveDomains db orgId) db.dnsRecords.rows := by
    rw [scoreRows_eq]
    exact filter_leftJoin (fun d : DomainRow => decide (d.status ≠ .suspended)) _ _
  have hverified : (scoreCounts db orgId).verified =
      ((scoreRows db orgId).filter fun x => x.1.status ≠ .suspended).countP fun x => x.1.status = .active := by
    rw [List.countP_filter]
    refine List.countP_congr fun x _ => ?_
    cases x.1.status <;> decide
  have hdomains : (scoreCounts db orgId).domains = ((scoreRows db orgId).filter fun x => x.1.status ≠ .suspended).length :=
    List.countP_eq_length_filter
  rw [hverified,hdomains,List.countP_eq_length,hlive]
  constructor
  · intro h d hd
    obtain ⟨o,ho⟩ := exists_mem_leftJoin hd
    exact of_decide_eq_true (h _ ho)
  · intro h x hx
    exact decide_eq_true (h _ (fst_mem_leftJoin hx))

/-- The domains with such a record, whatever their status. -/
theorem countOk_eq (db : ScoreDb) (orgId : Nat) (purpose : Purpose) :
    countOk db orgId purpose + lacking db orgId purpose = (liveDomains db orgId).length + suspendedOk db orgId purpose := by
  have hids : ((domainsOf db orgId).map DomainRow.id).Nodup := db.domains.unique.sublist (List.filter_sublist.map _)
  have hcount : countOk db orgId purpose = (domainsOf db orgId).countP (hasOk db purpose) := by
    rw [countOk,scoreRows_eq]
    exact countDistinct_leftJoin hids _
  have hsplit := List.countP_eq_countP_filter_add (domainsOf db orgId) (hasOk db purpose) (fun d => decide (d.status ≠ .suspended))
  have hsuspended : (domainsOf db orgId).filter (fun d => !decide (d.status ≠ .suspended)) =
    (domainsOf db orgId).filter (·.status = .suspended) :=
    List.filter_congr fun d _ => by simp
  have hlive := List.length_eq_countP_add_countP (hasOk db purpose) (l := liveDomains db orgId)
  rw [hsuspended] at hsplit
  have hlacking : (liveDomains db orgId).countP (fun d => decide ¬hasOk db purpose d = true) = lacking db orgId purpose :=
    List.countP_congr fun d _ => by simp
  rw [hlacking] at hlive
  rw [hcount,hsplit,hlive]
  change (liveDomains db orgId).countP (hasOk db purpose) + suspendedOk db orgId purpose + _ = _
  omega

theorem countOk_eq_domains : countOk db orgId purpose = (scoreCounts db orgId).domains ↔
    suspendedOk db orgId purpose = surplus db orgId + lacking db orgId purpose := by
  have hcount := countOk_eq db orgId purpose
  rw [domains_eq]
  omega

theorem lacking_eq_zero : lacking db orgId purpose = 0 ↔ ∀ d ∈ liveDomains db orgId, hasOk db purpose d = true := by
  rw [lacking,List.countP_eq_zero]
  simp

/-- The mark of a purpose is right where the join does no harm. -/
theorem mark_iff : ((decide (countOk db orgId purpose = (scoreCounts db orgId).domains) &&
    decide (0 < (scoreCounts db orgId).domains)) = true ↔
    liveDomains db orgId ≠ [] ∧ ∀ d ∈ liveDomains db orgId, hasOk db purpose d = true) ↔ JoinHarmless db orgId purpose := by
  rw [Bool.and_eq_true,decide_eq_true_eq,decide_eq_true_eq,domains_pos,countOk_eq_domains,← lacking_eq_zero,JoinHarmless]
  by_cases hlive : liveDomains db orgId = []
  · simp [hlive]
  · simp [hlive]

theorem verified_mark : (decide ((scoreCounts db orgId).verified = (scoreCounts db orgId).domains) &&
    decide (0 < (scoreCounts db orgId).domains)) = true ↔
    Deserved db orgId .verified := by
  rw [Bool.and_eq_true,decide_eq_true_eq,decide_eq_true_eq,domains_pos,verified_eq_iff]
  exact and_comm

theorem score_factors {now userId : Nat} {s : SecurityScore} (h : score db now orgId userId = .ok s) :
    s.factors = factorsOf (scoreCounts db orgId) := by
  unfold score at h
  cases hrole : requireRole db.accounts now orgId userId .viewer with
  | error e =>
    rw [hrole] at h
    cases h
  | ok role =>
    rw [hrole] at h
    cases h
    rfl

end Counts

section Results
variable {db : ScoreDb} {now orgId userId : Nat} {s : SecurityScore}

/-- The marks count domains where the join does no harm to any purpose. -/
theorem score_counts_domains_iff (h : score db now orgId userId = .ok s) :
    CountsDomains db orgId s ↔ ∀ purpose ∈ scoredPurposes, JoinHarmless db orgId purpose := by
  rw [CountsDomains,score_factors h,factorsOf,scoredPurposes]
  simp only [List.forall_mem_cons,List.not_mem_nil,false_imp_iff,implies_true,and_true]
  exact and_iff_right verified_mark |>.trans
    (and_congr mark_iff (and_congr mark_iff (and_congr mark_iff (and_congr mark_iff mark_iff))))

def checkedDomain (records : Table DnsRecordRow.key) : ScoreDb where
  accounts := soleAdmin
  domains := ⟨[⟨1,1,.active⟩],by decide⟩
  dnsRecords := records

def spfRecord : DnsRecordRow := ⟨1,.spf,js "a.b",js "TXT",.ok⟩
def dkimRecord : DnsRecordRow := ⟨1,.dkim,js "s._domainkey.a.b",js "TXT",.ok⟩

theorem one_record_counted : ∃ s, score (checkedDomain ⟨[spfRecord],by decide⟩) 0 1 1 = .ok s ∧ s.score = 35 ∧
    CountsDomains (checkedDomain ⟨[spfRecord],by decide⟩) 1 s := by
  have hscore : score (checkedDomain ⟨[spfRecord],by decide⟩) 0 1 1 =
    .ok ⟨35,factorsOf (scoreCounts (checkedDomain ⟨[spfRecord],by decide⟩) 1)⟩ := rfl
  refine ⟨_,hscore,rfl,(score_counts_domains_iff hscore).mpr ?_⟩
  simp only [scoredPurposes,List.forall_mem_cons,List.not_mem_nil,false_imp_iff,implies_true,and_true]
  exact ⟨.inr (by decide +kernel),.inr (by decide +kernel),.inr (by decide +kernel),.inr (by decide +kernel),.inr (by decide +kernel)⟩

/-- SPF and DKIM are both in order, and neither is marked. -/
theorem two_records_uncounted : ¬∀ db now orgId userId s, score db now orgId userId = .ok s → CountsDomains db orgId s := by
  intro h
  have hcounts := h (checkedDomain ⟨[spfRecord,dkimRecord],by decide⟩) 0 1 1 _ rfl
  have hmem : ⟨.spf,js "SPF present",false,
    15⟩ ∈ factorsOf (scoreCounts (checkedDomain ⟨[spfRecord,dkimRecord],by decide⟩) 1) := by decide +kernel
  have hdeserved : Deserved (checkedDomain ⟨[spfRecord,dkimRecord],by decide⟩) 1 .spf := by
    refine ⟨List.cons_ne_nil _ _,List.forall_mem_singleton.mpr ?_⟩
    decide +kernel
  exact absurd ((hcounts _ hmem).mpr hdeserved) (by decide)

end Results
end JustMail.Security
