import ProcCatalog.Proofs.Assign.Codes
import ProcCatalog.Proofs.Catalog.Grouping

/-!
# How a catalog is built

A catalog can be built exactly if the labels of all callers can be listed and the codes can be
sorted. Codes that are strings can be; there is then one module for each of them, with the
procedures of that code in their order of listing.
-/

namespace ProcCatalog.Catalog

variable {setting : Setting} {analysis : Analysis} {c : Catalog} {rules : Assign.Rules}
  {ps : List Procedure}

/-! ## Modules -/

def HasStringCodes (ps : List Procedure) : Prop := ∀ p ∈ ps, p.moduleCode.IsString

/-- The codes can be keys, and they can be sorted: there is one code only, or all are strings, or
all are numbers. -/
structure SortableCodes (ps : List Procedure) : Prop where
  isKey : ∀ p ∈ ps, p.moduleCode.isKey = true
  comparable : (∀ p ∈ ps, ∀ q ∈ ps, p.moduleCode.sameKey q.moduleCode = true) ∨
    HasStringCodes ps ∨ ∀ p ∈ ps, p.moduleCode.isNumber = true

theorem HasStringCodes.sortable (h : HasStringCodes ps) : SortableCodes ps where
  isKey p hp := by
    obtain ⟨s, hs⟩ := h p hp
    rw [hs]
    rfl
  comparable := .inr (.inl h)

theorem SortableCodes.mono {qs : List Procedure} (h : SortableCodes qs)
    (hcodes : ∀ p ∈ ps, ∃ q ∈ qs, q.moduleCode = p.moduleCode) : SortableCodes ps where
  isKey p hp := by
    obtain ⟨q, hq, heq⟩ := hcodes p hp
    exact heq ▸ h.isKey q hq
  comparable := by
    refine h.comparable.imp (fun hsame p hp p' hp' => ?_)
      (Or.imp (fun hstring p hp => ?_) fun hnumber p hp => ?_)
    · obtain ⟨q, hq, heq⟩ := hcodes p hp
      obtain ⟨q', hq', heq'⟩ := hcodes p' hp'
      exact heq ▸ heq' ▸ hsame q hq q' hq'
    · obtain ⟨q, hq, heq⟩ := hcodes p hp
      exact heq ▸ hstring q hq
    · obtain ⟨q, hq, heq⟩ := hcodes p hp
      exact heq ▸ hnumber q hq

/-- The codes of some procedures, ascending, each once. -/
structure Codes (ps : List Procedure) (codes : List RawText) : Prop where
  ascending : codes.Pairwise fun s t => RawText.le s t = true ∧ s ≠ t
  mem : ∀ s, s ∈ codes ↔ ∃ p ∈ ps, p.moduleCode = .str s

theorem Codes.eq_of_mem_iff {ps' : List Procedure} {codes codes' : List RawText}
    (h : Codes ps codes) (h' : Codes ps' codes') (hmem : ∀ p, p ∈ ps ↔ p ∈ ps') :
    codes = codes' := by
  refine ProcCatalog.eq_of_mem_iff (fun s t hst hts => ?_) h.ascending h'.ascending fun s => ?_
  · exact hst.2 (RawText.le_antisymm hst.1 hts.1)
  · simp only [h.mem, h'.mem, hmem]

def listingWith (rules : Assign.Rules) (ps : List Procedure) (s : RawText) : Listing where
  code := .str s
  displayName := (rules.displayNames.find? (.str s)).getD (.str s)
  procedures :=
    sortBy Procedure.listedBefore (ps.filter fun p => (Value.str s).sameKey p.moduleCode)

private theorem exists_codes {buckets : Buckets} (hstrings : HasStringCodes ps)
    (h : bucketsOf ps = .ok buckets) :
    ∃ codes : List RawText, buckets.map (·.1) = codes.map .str ∧
      Codes ps (sortBy RawText.le codes) := by
  have hfirst : ∀ v ∈ buckets.map (·.1), v.IsString := by
    intro v hv
    obtain ⟨p, hp, rfl⟩ := exists_of_mem_codes h hv
    exact hstrings p hp
  obtain ⟨codes, hcodes⟩ : buckets.map (·.1) ∈ Set.range (List.map Value.str) := by
    rw [Set.range_list_map]
    exact fun v hv => (hfirst v hv).imp fun _ hs => hs.symm
  have hmem (s : RawText) : s ∈ codes ↔ Value.str s ∈ buckets.map (·.1) := by
    rw [← hcodes, List.mem_map_of_injective fun _ _ => Value.str.inj]
  have hnodup : codes.Nodup := by
    have hdistinct := (grouped_bucketsOf h).distinct
    rw [← hcodes, List.pairwise_map] at hdistinct
    refine hdistinct.imp fun {s t} hst heq => ?_
    rw [heq, Value.sameKey_str.mpr rfl] at hst
    cases hst
  refine ⟨codes, hcodes.symm, ?_, fun s => ?_⟩
  · exact RawText.ascending_sortBy hnodup
  · rw [mem_sortBy, hmem]
    constructor
    · exact exists_of_mem_codes h
    · rintro ⟨p, hp, hcode⟩
      obtain ⟨v, hv, hsame⟩ := exists_code_of_mem h hp
      obtain ⟨t, rfl⟩ := hfirst v hv
      rw [hcode, Value.sameKey_str] at hsame
      exact hsame ▸ hv

theorem listingsOf_eq_ok (rules : Assign.Rules) (hstrings : HasStringCodes ps) :
    ∃ codes, Codes ps codes ∧ listingsOf rules ps = .ok (codes.map (listingWith rules ps)) := by
  obtain ⟨buckets, hbuckets⟩ : ∃ buckets, bucketsOf ps = .ok buckets :=
    ⟨_, bucketsOf_eq_ok.mpr ⟨hstrings.sortable.isKey, rfl⟩⟩
  obtain ⟨codes, hcodes, hsorted⟩ := exists_codes hstrings hbuckets
  refine ⟨_, hsorted, ?_⟩
  have hlisting (s : RawText) :
      listingOf rules buckets (.str s) = .ok (listingWith rules ps s) := by
    rw [listingOf, bucketOf_bucketsOf hbuckets]
    rfl
  rw [listingsOf, hbuckets]
  change Value.sorted _ >>= _ = _
  rw [hcodes, Value.sorted_strings]
  change List.mapM _ _ = _
  generalize sortBy RawText.le codes = strings
  induction strings with
  | nil => rfl
  | cons s strings ih =>
      rw [List.map_cons, List.mapM_cons, hlisting, ih]
      rfl

/-! ## Codes that can be sorted -/

private theorem isNumber_of_sameKey {v w : Value} (h : v.sameKey w = true)
    (hv : v.isNumber = true) : w.isNumber = true := by
  obtain ⟨n, -, hw⟩ | ⟨-, -, rfl⟩ := Value.sameKey_iff.mp h
  · cases w with
    | bool _ | int _ | real _ => rfl
    | null | str _ | arr _ | obj _ => cases hw
  · exact hv

theorem isString_of_sameKey {v w : Value} (h : v.sameKey w = true) (hv : v.IsString) :
    w.IsString := by
  obtain ⟨s, rfl⟩ := hv
  obtain ⟨n, hs, -⟩ | ⟨-, -, rfl⟩ := Value.sameKey_iff.mp h
  · cases hs
  · exact ⟨s, rfl⟩

private theorem exists_sorted_iff {vs : List Value} :
    (∃ ws, Value.sorted vs = .ok ws) ↔
      vs.length ≤ 1 ∨ (∀ v ∈ vs, v.IsString) ∨ ∀ v ∈ vs, v.isNumber = true := by
  have hstring (v : Value) : v.text?.isSome = true ↔ v.IsString := by
    cases v <;> simp [Value.text?, Value.IsString]
  rw [Value.sorted]
  simp only [List.all_eq_true, hstring]
  split
  · rename_i h
    exact ⟨fun _ => h, fun _ => ⟨_, rfl⟩⟩
  · rename_i h
    refine ⟨fun hws => ?_, fun hor => absurd hor h⟩
    obtain ⟨ws, hws⟩ := hws
    cases hws

/-- What holds of a code if it holds of the same key holds of all codes if it holds of the first
ones. -/
private theorem forall_mem_codes {buckets : Buckets} (hbuckets : bucketsOf ps = .ok buckets)
    {P : Value → Prop} (hP : ∀ v w : Value, v.sameKey w = true → P v → P w) :
    (∀ v ∈ buckets.map (·.1), P v) ↔ ∀ p ∈ ps, P p.moduleCode := by
  constructor
  · intro h p hp
    obtain ⟨v, hv, hsame⟩ := exists_code_of_mem hbuckets hp
    exact hP v _ hsame (h v hv)
  · intro h v hv
    obtain ⟨p, hp, rfl⟩ := exists_of_mem_codes hbuckets hv
    exact h p hp

private theorem length_le_one_iff {vs : List Value} (hkeys : ∀ v ∈ vs, v.isKey = true)
    (hdistinct : vs.Pairwise fun v w => v.sameKey w = false) :
    vs.length ≤ 1 ↔ ∀ v ∈ vs, ∀ w ∈ vs, v.sameKey w = true := by
  match vs, hdistinct with
  | [], _ => simp
  | [v], _ => simpa using Value.sameKey_self (hkeys v List.mem_cons_self)
  | v :: w :: vs, hdistinct =>
      have hvw : v.sameKey w = false := (List.pairwise_cons.mp hdistinct).1 w List.mem_cons_self
      refine ⟨fun hlength => by simp at hlength, fun hall => ?_⟩
      rw [hall v (by simp) w (by simp)] at hvw
      cases hvw

private theorem exists_listingOf {buckets : Buckets} {v : Value} (hv : v.isKey = true) :
    ∃ l, listingOf rules buckets v = .ok l := by
  refine ⟨_, Outcome.bind_eq_ok.mpr ⟨(rules.displayNames.find? v).getD v, ?_, rfl⟩⟩
  rw [Assign.Rules.displayName, Mapping.lookup, if_pos hv]
  rfl

/-- What is sorted are the codes that came first under their keys, each key once; each condition on
them is carried over to all procedures. -/
private theorem exists_sorted_codes_iff {buckets : Buckets} (h : bucketsOf ps = .ok buckets) :
    (∃ codes, Value.sorted (buckets.map (·.1)) = .ok codes) ↔ SortableCodes ps := by
  have hkeys := (bucketsOf_eq_ok.mp h).1
  have hcodes : ∀ v ∈ buckets.map (·.1), v.isKey = true := by
    intro v hv
    obtain ⟨p, hp, rfl⟩ := exists_of_mem_codes h hv
    exact hkeys p hp
  have hsame (v : Value) := forall_mem_codes (P := fun w => v.sameKey w = true) h
    fun _ _ hvw hv => Value.sameKey_trans hv hvw
  rw [exists_sorted_iff, length_le_one_iff hcodes (grouped_bucketsOf h).distinct,
    forall_mem_codes h fun _ _ => isString_of_sameKey,
    forall_mem_codes h fun _ _ => isNumber_of_sameKey]
  simp only [hsame]
  rw [forall_mem_codes h fun v w hvw hv p hp =>
    Value.sameKey_trans (Value.sameKey_symm hvw) (hv p hp)]
  exact ⟨fun h => ⟨hkeys, h⟩, SortableCodes.comparable⟩

/-- There are modules exactly if the codes can be sorted. -/
theorem exists_listingsOf_iff (rules : Assign.Rules) :
    (∃ listings, listingsOf rules ps = .ok listings) ↔ SortableCodes ps := by
  constructor
  · rintro ⟨listings, h⟩
    obtain ⟨buckets, hbuckets, h⟩ := Outcome.bind_eq_ok.mp h
    obtain ⟨codes, hcodes, -⟩ := Outcome.bind_eq_ok.mp h
    exact (exists_sorted_codes_iff hbuckets).mp ⟨codes, hcodes⟩
  · intro h
    obtain ⟨buckets, hbuckets⟩ : ∃ buckets, bucketsOf ps = .ok buckets :=
      ⟨_, bucketsOf_eq_ok.mpr ⟨h.isKey, rfl⟩⟩
    obtain ⟨codes, hcodes⟩ := (exists_sorted_codes_iff hbuckets).mpr h
    obtain ⟨listings, hlistings⟩ : ∃ listings,
        codes.mapM (listingOf rules buckets) = .ok listings := by
      refine Outcome.exists_mapM_iff.mpr fun v hv => exists_listingOf ?_
      obtain ⟨p, hp, rfl⟩ := exists_of_mem_codes hbuckets ((perm_of_sorted hcodes).mem_iff.mp hv)
      exact h.isKey p hp
    exact ⟨listings, Outcome.bind_eq_ok.mpr ⟨_, hbuckets, Outcome.bind_eq_ok.mpr
      ⟨codes, hcodes, hlistings⟩⟩⟩

/-! ## Callers -/

def graphOf (ps : List Procedure) : CallGraph := .ofRoutines (ps.map routine)

def HasLabels (reference : Collaborator.CrossReference) (ps : List Procedure) : Prop :=
  ∀ p ∈ ps, ∃ labels, reference.labels p.name = .ok labels

def called (reference : Collaborator.CrossReference) (graph : CallGraph) (p : Procedure) :
    Procedure :=
  { p with
    codeCallers := (reference.labels p.name).toOption.getD []
    procedureCallers := graph.callersOf p.name }

def withCallers (reference : Collaborator.CrossReference) (ps : List Procedure) :
    List Procedure :=
  ps.map (called reference (graphOf ps))

private theorem withCodeCallers_eq_ok {reference : Collaborator.CrossReference}
    {ps' : List Procedure} :
    withCodeCallers reference ps = .ok ps' ↔
      HasLabels reference ps ∧
        ps' = ps.map fun p =>
          { p with codeCallers := (reference.labels p.name).toOption.getD [] } := by
  have hone (p q : Procedure)
      (h : ((reference.labels p.name).map fun labels => { p with codeCallers := labels }) = .ok q) :
      q = { p with codeCallers := (reference.labels p.name).toOption.getD [] } := by
    cases hlabels : reference.labels p.name with
    | error fault => simp [hlabels, Except.map] at h
    | ok labels =>
        rw [hlabels] at h
        exact (Except.ok.inj h).symm
  have hsome (p : Procedure) : (∃ q, ((reference.labels p.name).map fun labels =>
      { p with codeCallers := labels }) = .ok q) ↔
        ∃ labels, reference.labels p.name = .ok labels := by
    cases reference.labels p.name <;> simp [Except.map]
  have hall : (∃ qs, withCodeCallers reference ps = .ok qs) ↔ HasLabels reference ps := by
    simp only [withCodeCallers, Outcome.exists_mapM_iff, hsome, HasLabels]
  have heq {qs : List Procedure} (h : withCodeCallers reference ps = .ok qs) :
      qs = ps.map fun p =>
        { p with codeCallers := (reference.labels p.name).toOption.getD [] } := by
    rw [← Outcome.map_eq_map_of_mapM (g := id) hone h, List.map_id]
  constructor
  · exact fun h => ⟨hall.mp ⟨ps', h⟩, heq h⟩
  · rintro ⟨hlabels, rfl⟩
    obtain ⟨qs, hqs⟩ := hall.mpr hlabels
    rw [hqs, heq hqs]

/-! ## Building -/

/-- A catalog is built when the labels of the callers can be listed and the modules can, and then
it is made of these modules, the statistics and the call graph. -/
theorem build_eq_ok :
    build setting analysis = .ok c ↔
      HasLabels setting.crossReference analysis.procedures ∧
        ∃ listings,
          listingsOf setting.rules (withCallers setting.crossReference analysis.procedures) =
            .ok listings ∧
          c = {
            source := setting.source
            exportDate := setting.exportDate
            totalBatches := setting.totalBatches
            candidateBlocks := analysis.blocks
            parseFailures := analysis.parseFailures
            listings
            stats := some (.ofFacts (analysis.procedures.map (·.fact)))
            callGraph := some ((graphOf analysis.procedures).summary setting.hotspotLimit) } := by
  have hcallers : ((analysis.procedures.map fun p =>
        { p with codeCallers := (setting.crossReference.labels p.name).toOption.getD [] }).map
          fun p => { p with procedureCallers := (graphOf analysis.procedures).callersOf p.name }) =
      withCallers setting.crossReference analysis.procedures := by
    rw [List.map_map]
    rfl
  have hroutines : (analysis.procedures.map fun p =>
        { p with codeCallers := (setting.crossReference.labels p.name).toOption.getD [] }).map
          routine = analysis.procedures.map routine := by
    rw [List.map_map]
    rfl
  have hfacts : (withCallers setting.crossReference analysis.procedures).map (·.fact) =
      analysis.procedures.map (·.fact) := by
    rw [withCallers, List.map_map]
    rfl
  rw [build, Outcome.bind_eq_ok]
  simp only [withCodeCallers_eq_ok]
  constructor
  · rintro ⟨_, ⟨hlabels, rfl⟩, h⟩
    obtain ⟨listings, hlistings, h⟩ := Outcome.bind_eq_ok.mp h
    rw [hroutines] at hlistings h
    change listingsOf _ (List.map _ _) = _ at hlistings
    rw [← graphOf, hcallers] at hlistings h
    rw [hfacts] at h
    exact ⟨hlabels, listings, hlistings, (Except.ok.inj h).symm⟩
  · rintro ⟨hlabels, listings, hlistings, rfl⟩
    refine ⟨_, ⟨hlabels, rfl⟩, Outcome.bind_eq_ok.mpr ⟨listings, ?_, ?_⟩⟩
    · rw [hroutines, ← graphOf, hcallers]
      exact hlistings
    · rw [hroutines, ← graphOf, hcallers, hfacts]
      rfl

theorem hasStringCodes_withCallers (reference : Collaborator.CrossReference) :
    HasStringCodes (withCallers reference ps) ↔ HasStringCodes ps := by
  rw [HasStringCodes, withCallers, List.forall_mem_map]
  rfl

private theorem sortableCodes_withCallers (reference : Collaborator.CrossReference) :
    SortableCodes (withCallers reference ps) ↔ SortableCodes ps := by
  constructor
  · exact fun h => h.mono fun p hp => ⟨_, List.mem_map_of_mem hp, rfl⟩
  · exact fun h => h.mono (List.forall_mem_map.mpr fun p hp => ⟨p, hp, rfl⟩)

theorem exists_build_iff :
    (∃ c, build setting analysis = .ok c) ↔
      HasLabels setting.crossReference analysis.procedures ∧
        SortableCodes analysis.procedures := by
  simp only [build_eq_ok]
  rw [← sortableCodes_withCallers setting.crossReference,
    ← exists_listingsOf_iff setting.rules]
  constructor
  · rintro ⟨c, hlabels, listings, hlistings, -⟩
    exact ⟨hlabels, listings, hlistings⟩
  · rintro ⟨hlabels, listings, hlistings⟩
    exact ⟨_, hlabels, listings, hlistings, rfl⟩

end ProcCatalog.Catalog
