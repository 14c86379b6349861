import JustMail.Dkim.DesecCodec
import JustMail.Foundation.MasterFile
import JustMail.Foundation.Utf16
import Mathlib.Data.List.Forall2

/-! The zone export of `dns.service.ts`, read back by the grammar of master files. -/
namespace JustMail.Dkim
open Foundation MasterFile

structure ZoneRecord where
  type : JsString
  name : JsString
  content : JsString
  ttl : Nat
  priority : Option Nat

def fqdn (name : JsString) : JsString := if name.getLast? = some DOT then name else name ++ js "."

def txtRdata (content : JsString) : JsString :=
  (js " ").intercalate ((characterStrings content).map fun c => QUOTE :: replaceUnit QUOTE (js "\\\"") c ++ [QUOTE])

def zoneHeader (domain : JsString) : List JsString :=
  [js "; JustMail DNS records for " ++ domain,
    js "; Import into any authoritative DNS server (BIND, PowerDNS, Knot, NSD, Technitium, dnsmasq).",
    js "; Owner names are fully qualified. After the zone reloads, click \"Recheck\" to verify.",
    []]

def zoneLine (r : ZoneRecord) : JsString :=
  let head := fqdn r.name ++ js "\t" ++ decimal r.ttl ++ js "\tIN\t" ++ r.type
  if r.type = TXT then head ++ js "\t" ++ txtRdata r.content
  else if r.type = MX then head ++ js "\t" ++ decimal (r.priority.getD 10) ++ js " " ++ fqdn r.content
  else if r.type = CNAME then head ++ js "\t" ++ fqdn r.content
  else head ++ js "\t" ++ r.content

def toZoneFile (domain : JsString) (records : List ZoneRecord) : JsString :=
  (js "\n").intercalate (zoneHeader domain ++ records.map zoneLine) ++ js "\n"

/-- The records that can be written: contents on one line of ASCII without backslashes,
names, and the presentation forms of the other types. -/
structure Presentable (r : ZoneRecord) : Prop where
  name : (nameOf r.name).isSome
  type : IsWord r.type ∧ r.type.map asciiUpper = r.type
  content :
    if r.type = TXT then (∀ c ∈ r.content, c < 128) ∧ BACKSLASH ∉ r.content ∧ LF ∉ r.content
    else if r.type = MX ∨ r.type = CNAME then (nameOf r.content).isSome
    else (contentOf r.type r.content).isSome

def DataOf (r : ZoneRecord) (data : Rdata) : Prop :=
  if r.type = TXT then ∃ strings, data = .txt strings ∧ strings ≠ [] ∧
    (∀ s ∈ strings, (encodeUtf8 s).size ≤ 255) ∧ strings.flatten = r.content
  else if r.type = MX then ∃ host, nameOf r.content = some host ∧ data = .mx (r.priority.getD 10) host
  else if r.type = CNAME then ∃ host, nameOf r.content = some host ∧ data = .cname host
  else contentOf r.type r.content = some data

/-- The record that was read is the record that was written. -/
structure Stands (r : ZoneRecord) (record : MasterFile.Record) : Prop where
  owner : nameOf r.name = some record.owner
  ttl : record.ttl = r.ttl
  internet : record.class' = js "IN"
  type : record.type = r.type
  data : DataOf r record.rdata

section Reading
variable {r : ZoneRecord} {data : Rdata} {w : JsString}

theorem fqdn_eq (name : JsString) : fqdn name = absolute name := rfl

/-- The text behind the type, and the items it is by itself. -/
def rdataText (r : ZoneRecord) : JsString :=
  if r.type = TXT then txtRdata r.content
  else if r.type = MX then decimal (r.priority.getD 10) ++ js " " ++ fqdn r.content
  else if r.type = CNAME then fqdn r.content
  else r.content

theorem zoneLine_eq (r : ZoneRecord) :
    zoneLine r = [fqdn r.name,decimal r.ttl,js "IN",r.type].flatMap (· ++ [9]) ++ rdataText r := by
  have htab : js "\t" = [9] := by decide
  have hin : js "\tIN\t" = [9] ++ js "IN" ++ [9] := by decide
  simp only [zoneLine,rdataText,htab,hin]
  split_ifs <;> simp

private theorem isWord_decimal (n : Nat) : IsWord (decimal n) := by
  have hunit : ∀ c ∈ decimal n, ordinary c = true ∧ c ≠ QUOTES := fun c hc =>
    of_isDigit (p := fun c => ordinary c = true ∧ c ≠ QUOTES) (by decide) (decimal_digits n c hc)
  refine ⟨by simp [decimal,decimalLoop],fun c hc => (hunit c hc).1,fun hhead => ?_⟩
  exact (hunit QUOTES (List.mem_of_head? hhead)).2 rfl

private theorem run_last (hw : IsWord w) :
    (Line.run {} w).bind Line.close = some [Item.word w] := by
  have hrun : Line.run {} w = some ⟨[],0,.item false (plain w)⟩ := run_word hw
  rw [hrun]
  rfl

private theorem run_preference (n : Nat) (hw : IsWord w) :
    (Line.run {} (decimal n ++ js " " ++ w)).bind Line.close = some [Item.word (decimal n),Item.word w] := by
  have hrun : Line.run {} (decimal n ++ js " ") = some ⟨[Item.word (decimal n)],0,.gap⟩ :=
    run_word_blank (isWord_decimal n) (by decide)
  rw [run_append_of hrun,run_word hw]
  rfl

/-- The strings of a TXT record: the pieces of its content, their quotes escaped. -/
private theorem run_txtRdata {content : JsString} (hslash : BACKSLASH ∉ content) (hlf : LF ∉ content) :
    (Line.run {} (txtRdata content)).bind Line.close = some ((characterStrings content).map Item.string) := by
  have hpiece : ∀ {c : CodeUnit}, c ∉ content → ∀ p ∈ characterStrings content, c ∉ p := by
    intro c hc p hp hmem
    apply hc
    rw [← characterStrings_flatten content]
    exact List.mem_flatten.mpr ⟨p,hp,hmem⟩
  have hrun : Line.run {} (txtRdata content) = some ⟨(characterStrings content).map Item.string,0,.gap⟩ :=
    run_strings (hpiece hslash) (hpiece hlf) (show isBlank 32 = true by decide)
  rw [hrun]
  rfl

private theorem text_string (s : JsString) : (Item.string s).text = s := by
  simp [Item.string,Item.text,Function.comp_def]

private theorem readStrings_characterStrings (content : JsString) :
    readStrings ((characterStrings content).map Item.string) = some (characterStrings content) := by
  obtain ⟨first,rest,hstrings,-⟩ := characterStrings_cons content
  have hlen : ((characterStrings content).map Item.string).all (fun i => i.glyphs.length ≤ 255) := by
    rw [List.all_eq_true]
    intro i hi
    obtain ⟨p,hp,rfl⟩ := List.mem_map.mp hi
    simpa [Item.string] using characterStrings_length content p hp
  rw [readStrings,if_pos ⟨by simp [hstrings],hlen⟩,List.map_map]
  simp [Function.comp_def,text_string]

private theorem lf_not_mem_of_isWord (hw : IsWord w) : LF ∉ w := fun h => by
  have hlf := hw.2.1 LF h
  exact absurd hlf (by decide)

private theorem lf_not_mem_txtRdata {content : JsString} (hlf : LF ∉ content) : LF ∉ txtRdata content := by
  intro h
  rcases mem_intercalate h with h | ⟨q,hq,hmem⟩
  · exact absurd h (by decide)
  · obtain ⟨p,hp,rfl⟩ := List.mem_map.mp hq
    have hp' : LF ∉ p := fun h => hlf (by
      rw [← characterStrings_flatten content]
      exact List.mem_flatten.mpr ⟨p,hp,h⟩)
    rw [List.mem_append,List.mem_cons,List.mem_singleton] at hmem
    rcases hmem with (hmem | hmem) | hmem
    · exact absurd hmem (by decide)
    · obtain ⟨c,hc,hin⟩ := List.mem_flatMap.mp hmem
      split at hin
      · exact absurd hin (by decide)
      · rw [List.mem_singleton] at hin
        exact hp' (hin ▸ hc)
    · exact absurd hmem (by decide)

/-- Each kind of record: the items behind its type are read as what its content says. -/
theorem rdataText_reads (h : Presentable r) : LF ∉ rdataText r ∧ ∃ items data,
    (Line.run {} (rdataText r)).bind Line.close = some items ∧ readRdata none r.type items = some data ∧
      DataOf r data := by
  have hcontent := h.content
  unfold rdataText DataOf
  by_cases htxt : r.type = TXT
  · rw [if_pos htxt] at hcontent
    obtain ⟨hascii,hslash,hlf⟩ := hcontent
    simp only [if_pos htxt]
    refine ⟨lf_not_mem_txtRdata hlf,_,_,run_txtRdata hslash hlf,?_,characterStrings r.content,rfl,?_,?_,?_⟩
    · rw [htxt]
      change (readStrings _).map _ = _
      rw [readStrings_characterStrings]
      rfl
    · obtain ⟨first,rest,hstrings,-⟩ := characterStrings_cons r.content
      simp [hstrings]
    · intro s hs
      have hs' : ∀ c ∈ s, c < 128 := by
        intro c hc
        apply hascii
        rw [← characterStrings_flatten r.content]
        exact List.mem_flatten.mpr ⟨s,hs,hc⟩
      rw [size_encodeUtf8_ascii hs']
      exact characterStrings_length r.content s hs
    · exact characterStrings_flatten r.content
  · rw [if_neg htxt] at hcontent
    simp only [if_neg htxt]
    by_cases hmx : r.type = MX
    · rw [if_pos (.inl hmx)] at hcontent
      obtain ⟨host,hhost⟩ := Option.isSome_iff_exists.mp hcontent
      have hword : IsWord (fqdn r.content) := isWord_absolute (isWord_of_nameOf hhost)
      simp only [if_pos hmx]
      refine ⟨?_,_,_,run_preference _ hword,?_,host,hhost,rfl⟩
      · intro hmem
        rcases List.mem_append.mp hmem with hmem | hmem
        · rcases List.mem_append.mp hmem with hmem | hmem
          · exact lf_not_mem_of_isWord (isWord_decimal _) hmem
          · exact absurd hmem (by decide)
        · exact lf_not_mem_of_isWord hword hmem
      · rw [hmx]
        change (readNumber _).bind _ = _
        rw [readNumber_word,Option.bind_some,fqdn_eq,readName_absolute hhost]
        rfl
    · by_cases hcname : r.type = CNAME
      · rw [if_pos (.inr hcname)] at hcontent
        obtain ⟨host,hhost⟩ := Option.isSome_iff_exists.mp hcontent
        have hword : IsWord (fqdn r.content) := isWord_absolute (isWord_of_nameOf hhost)
        simp only [if_neg hmx,if_pos hcname]
        refine ⟨lf_not_mem_of_isWord hword,_,_,run_last hword,?_,host,hhost,rfl⟩
        rw [hcname]
        change (readName _ _).map _ = _
        rw [fqdn_eq,readName_absolute hhost]
        rfl
      · rw [if_neg (by tauto)] at hcontent
        obtain ⟨data,hdata⟩ := Option.isSome_iff_exists.mp hcontent
        simp only [if_neg hmx,if_neg hcname]
        have hread := hdata
        rw [contentOf] at hread
        split at hread
        · cases hread
        · rename_i hlf
          obtain ⟨items,hitems,hrdata⟩ := Option.bind_eq_some_iff.mp hread
          exact ⟨hlf,items,data,hitems,hrdata,hdata⟩

/-- One record is one entry, and what is read from it stands for the record. -/
theorem zoneLine_reads (h : Presentable r) : ∃ entry, Reads (zoneLine r) [entry] ∧
    ∀ context : Context, context.origin = none →
      ∃ next record, readEntry context entry = some (next,[record]) ∧ next.origin = none ∧ Stands r record := by
  obtain ⟨owner,howner⟩ := Option.isSome_iff_exists.mp h.name
  obtain ⟨hword,hupper⟩ := h.type
  obtain ⟨hlf,items,data,hitems,hdata,hstands⟩ := rdataText_reads h
  have hfields : ∀ w ∈ [fqdn r.name,decimal r.ttl,js "IN",r.type], IsWord w := by
    intro w hw
    simp only [List.mem_cons,List.not_mem_nil,or_false] at hw
    rcases hw with rfl | rfl | rfl | rfl
    · exact isWord_absolute (isWord_of_nameOf howner)
    · exact isWord_decimal _
    · decide
    · exact hword
  have hline := reads_words hfields (show isBlank 9 = true by decide) (by decide) hlf hitems
  rw [← zoneLine_eq] at hline
  refine ⟨_,hline,?_⟩
  intro context horigin
  exact ⟨_,_,readEntry_named howner r.ttl hupper (by rwa [horigin]),horigin,⟨howner,rfl,rfl,rfl,hstands⟩⟩

private theorem flatMap_eq_intercalate (sep : JsString) {lines : List JsString} (h : lines ≠ []) :
    sep.intercalate lines ++ sep = lines.flatMap (· ++ sep) := by
  induction lines with
  | nil => exact absurd rfl h
  | cons line lines ih =>
    by_cases hlines : lines = []
    · simp [hlines]
    · rw [List.intercalate_cons_of_ne_nil hlines,List.flatMap_cons,← ih hlines]
      simp only [List.append_assoc]

private theorem reads_semicolon {s : JsString} (hhead : s.head? = some (unit ';')) (hs : LF ∉ s) : Reads s [] := by
  obtain ⟨rest,rfl⟩ := List.head?_eq_some_iff.mp hhead
  exact reads_comment fun h => hs (List.mem_cons_of_mem _ h)

private theorem zoneHeader_reads {domain : JsString} (hdomain : LF ∉ domain) :
    List.Forall₂ Reads (zoneHeader domain) [[],[],[],[]] := by
  have htitle : LF ∉ js "; JustMail DNS records for " ++ domain := by
    intro h
    rcases List.mem_append.mp h with h | h
    · exact absurd h (by decide +kernel)
    · exact hdomain h
  refine .cons (reads_semicolon ?_ htitle) (.cons ?_ (.cons ?_ (.cons reads_empty .nil)))
  · have hhead : (js "; JustMail DNS records for ").head? = some (unit ';') := by decide +kernel
    rw [List.head?_append,hhead,Option.some_or]
  · exact reads_semicolon (by decide +kernel) (by decide +kernel)
  · exact reads_semicolon (by decide +kernel) (by decide +kernel)

/-- Every record in turn, whatever the entries before it left behind. -/
theorem readAll_records {records : List ZoneRecord} (h : ∀ r ∈ records, Presentable r) :
    ∃ entries, List.Forall₂ Reads (records.map zoneLine) (entries.map ([·])) ∧
      ∀ context : Context, context.origin = none →
        ∃ out, readAll context entries = some out ∧ List.Forall₂ Stands records out := by
  induction records with
  | nil => exact ⟨[],.nil,fun _ _ => ⟨[],rfl,.nil⟩⟩
  | cons r records ih =>
    obtain ⟨entry,hline,hentry⟩ := zoneLine_reads (h r List.mem_cons_self)
    obtain ⟨entries,hlines,hentries⟩ := ih fun r' hr' => h r' (List.mem_cons_of_mem _ hr')
    refine ⟨entry :: entries,.cons hline hlines,fun context horigin => ?_⟩
    obtain ⟨next,record,hread,hnext,hstands⟩ := hentry context horigin
    obtain ⟨out,hout,hall⟩ := hentries next hnext
    refine ⟨record :: out,?_,.cons hstands hall⟩
    rw [readAll,hread,Option.bind_some,hout]
    rfl

/-- The exported file is read back as the records, in order. -/
theorem toZoneFile_faithful (domain : JsString) (hdomain : LF ∉ domain) (records : List ZoneRecord)
    (h : ∀ r ∈ records, Presentable r) :
    ∃ out, readZone none (toZoneFile domain records) = some out ∧ List.Forall₂ Stands records out := by
  obtain ⟨entries,hlines,hentries⟩ := readAll_records h
  obtain ⟨out,hout,hstands⟩ := hentries {} rfl
  refine ⟨out,?_,hstands⟩
  have hfile : toZoneFile domain records = (zoneHeader domain ++ records.map zoneLine).flatMap (· ++ [LF]) :=
    flatMap_eq_intercalate (js "\n") (by simp [zoneHeader])
  have hread := readEntries_lines (List.rel_append (zoneHeader_reads hdomain) hlines)
  rw [← hfile] at hread
  rw [readZone,hread]
  simpa [← List.flatMap_def] using hout

def sampleTxt : ZoneRecord := ⟨TXT,js "ex.com",js "say \"hi\"; bye",300,none⟩
def sampleMx : ZoneRecord := ⟨MX,js "ex.com",js "mx.ex.com.",300,none⟩
def sampleCaa : ZoneRecord := ⟨CAA,js "ex.com.",js "0 issue \"ca.org\"",300,none⟩

private theorem sample_presentable : ∀ r ∈ [sampleTxt,sampleMx,sampleCaa], Presentable r := by
  intro r hr
  simp only [List.mem_cons,List.not_mem_nil,or_false] at hr
  rcases hr with rfl | rfl | rfl <;> exact ⟨by decide +kernel,by decide +kernel,by decide +kernel⟩

theorem toZoneFile_faithful_sample : ∃ out, readZone none (toZoneFile (js "ex.com") [sampleTxt,sampleMx,sampleCaa]) = some out ∧
    List.Forall₂ Stands [sampleTxt,sampleMx,sampleCaa] out :=
  toZoneFile_faithful (js "ex.com") (by decide) _ sample_presentable

end Reading
end JustMail.Dkim
