import ProcCatalog.Proofs.Catalog.Accounting
import ProcCatalog.Report.Views

/-!
# Looking up a module

Modules are told apart by their codes as they are spelled, but looked up without regard to case.
Where codes differ in case only, the first of them is found for each, and the procedures of all of
them are selected. The standard rules give no two such codes, but a hint may.
-/

namespace ProcCatalog

/-- The value is the code, case aside. -/
def Value.isSpelled (code : RawText) : Value → Bool
  | .str s => s.lower == code.lower
  | _ => false

namespace Catalog

open Report (filterModule selectModule)

variable {setting : Setting} {analysis : Analysis} {c : Catalog} {listings : List Listing}
  {ps : List Procedure} {l m : Listing} {s : RawText}

/-! ## Modules with strings for codes -/

/-- Every module has a string for its code, another one each, and some procedures, all of that
code. -/
structure ListedByString (listings : List Listing) : Prop where
  isString : ∀ l ∈ listings, l.code.IsString
  moduleCode : ∀ l ∈ listings, ∀ p ∈ l.procedures, p.moduleCode = l.code
  nonempty : ∀ l ∈ listings, l.procedures ≠ []
  distinct : listings.Pairwise fun l m => l.code ≠ m.code

theorem Codes.listedByString {codes : List RawText} (h : Codes ps codes)
    (hstrings : HasStringCodes ps) (rules : Assign.Rules) :
    ListedByString (codes.map (listingWith rules ps)) where
  isString := List.forall_mem_map.mpr fun s _ => ⟨s, rfl⟩
  moduleCode := by
    refine List.forall_mem_map.mpr fun s _ p hp => ?_
    obtain ⟨hp, hsame⟩ := List.mem_filter.mp (mem_sortBy.mp hp)
    obtain ⟨t, ht⟩ := hstrings p hp
    rw [ht, Value.sameKey_str] at hsame
    rw [ht, ← hsame]
    rfl
  nonempty := by
    refine List.forall_mem_map.mpr fun s hs hnil => ?_
    obtain ⟨p, hp, hcode⟩ := (h.mem s).mp hs
    have hmem : p ∈ (listingWith rules ps s).procedures :=
      mem_sortBy.mpr (List.mem_filter.mpr ⟨hp, by rw [hcode]; exact Value.sameKey_str.mpr rfl⟩)
    rw [hnil] at hmem
    cases hmem
  distinct := List.pairwise_map.mpr (h.ascending.imp fun hst heq => hst.2 (Value.str.inj heq))

/-- Codes of which one is a string are sorted only if all of them are. -/
theorem listedByString_build (h : build setting analysis = .ok c) (hm : m ∈ c.listings)
    (hcode : m.code = .str s) : ListedByString c.listings := by
  obtain ⟨-, listings, hlistings, rfl⟩ := build_eq_ok.mp h
  obtain ⟨p, hp, hpm⟩ := exists_of_mem_listingsOf hlistings hm
  have hps : p.moduleCode = .str s := hpm.trans hcode
  have hsortable := (exists_listingsOf_iff setting.rules).mp ⟨listings, hlistings⟩
  have hstrings : HasStringCodes (withCallers setting.crossReference analysis.procedures) := by
    rcases hsortable.comparable with hsame | hstrings | hnumbers
    · exact fun q hq => isString_of_sameKey (hsame p hp q hq) ⟨s, hps⟩
    · exact hstrings
    · have hnumber := hnumbers p hp
      rw [hps] at hnumber
      cases hnumber
  obtain ⟨codes, hcodes, heq⟩ := listingsOf_eq_ok setting.rules hstrings
  obtain rfl := Except.ok.inj (hlistings.symm.trans heq)
  exact hcodes.listedByString hstrings setting.rules

/-! ## What is found -/

private theorem filter_flatMap_of_forall {f : Procedure → Bool} {g : Listing → Bool}
    (h : ∀ l ∈ listings, ∀ p ∈ l.procedures, f p = g l) :
    (listings.flatMap (·.procedures)).filter f =
      (listings.filter g).flatMap (·.procedures) := by
  induction listings with
  | nil => rfl
  | cons l listings ih =>
      obtain ⟨hl, h⟩ := List.forall_mem_cons.mp h
      rw [List.flatMap_cons, List.filter_append, List.filter_cons, ih h]
      cases hg : g l with
      | true => rw [List.filter_eq_self.mpr fun p hp => (hl p hp).trans hg, if_pos rfl,
          List.flatMap_cons]
      | false =>
          rw [List.filter_eq_nil_iff.mpr fun p hp => by simp [hl p hp, hg],
            if_neg Bool.false_ne_true, List.nil_append]

private theorem go_eq_find? (h : ∀ l ∈ listings, l.code.IsString) (s : RawText) :
    listing?.go s.lower listings = .ok (listings.find? fun l => l.code.isSpelled s) := by
  induction listings with
  | nil => rfl
  | cons l listings ih =>
      obtain ⟨⟨t, ht⟩, h⟩ := List.forall_mem_cons.mp h
      rw [listing?.go, List.find?_cons, ht]
      change (if (t.lower == s.lower) = true then _ else _) = _
      rw [Value.isSpelled, ih h]
      cases t.lower == s.lower <;> rfl

private theorem filterModule_eq_filter (h : ∀ p ∈ ps, p.moduleCode.IsString) (s : RawText) :
    filterModule s ps = .ok (ps.filter fun p => p.moduleCode.isSpelled s) := by
  induction ps with
  | nil => rfl
  | cons p ps ih =>
      obtain ⟨⟨t, ht⟩, h⟩ := List.forall_mem_cons.mp h
      rw [filterModule, List.filter_cons, ih h, ht]
      change Except.ok (if (t.lower == s.lower) = true then _ else _) = _
      rw [Value.isSpelled]

private theorem flatMap_eq_iff {kept : List Listing} (h : ∀ l ∈ kept, l.procedures ≠ [])
    (hm : m ∈ kept) : kept.flatMap (·.procedures) = m.procedures ↔ kept = [m] := by
  refine ⟨fun heq => ?_, by rintro rfl; simp⟩
  obtain ⟨before, behind, rfl⟩ := List.append_of_mem hm
  rw [List.forall_mem_append, List.forall_mem_cons] at h
  have hlength := congrArg List.length heq
  rw [List.flatMap_append, List.flatMap_cons, List.length_append, List.length_append] at hlength
  have hbefore : before.flatMap (·.procedures) = [] := List.length_eq_zero_iff.mp (by omega)
  have hbehind : behind.flatMap (·.procedures) = [] := List.length_eq_zero_iff.mp (by omega)
  rw [List.flatMap_eq_nil_iff] at hbefore hbehind
  rw [List.eq_nil_iff_forall_not_mem.mpr fun l hl => h.1 l hl (hbefore l hl),
    List.eq_nil_iff_forall_not_mem.mpr fun l hl => h.2.2 l hl (hbehind l hl)]
  rfl

private theorem filter_eq_singleton_iff {passes : Listing → Bool} (hnodup : listings.Nodup)
    (hm : m ∈ listings.filter passes) :
    listings.filter passes = [m] ↔ ∀ l ∈ listings, passes l = true → l = m := by
  constructor
  · intro honly l hl hpasses
    have hmem := List.mem_filter.mpr ⟨hl, hpasses⟩
    rw [honly] at hmem
    exact List.mem_singleton.mp hmem
  · intro honly
    have hall : ∀ l ∈ listings.filter passes, l = m := fun l hl =>
      honly l (List.mem_of_mem_filter hl) (List.mem_filter.mp hl).2
    have hsame := List.eq_replicate_of_mem hall
    have honce := hnodup.filter passes
    rw [hsame, List.nodup_replicate] at honce
    have hpos := List.length_pos_of_mem hm
    rw [hsame, show (listings.filter passes).length = 1 by omega]
    rfl

namespace ListedByString

theorem listing?_eq (h : ListedByString c.listings) (s : RawText) :
    c.listing? s = .ok (c.listings.find? fun l => l.code.isSpelled s) :=
  go_eq_find? h.isString s

/-- The first module with a spelling of the code is found. -/
theorem listing?_eq_iff (h : ListedByString c.listings) (hm : m.code.isSpelled s = true)
    {before behind : List Listing} (hcut : c.listings = before ++ m :: behind) :
    c.listing? s = .ok (some m) ↔ ∀ l ∈ before, l.code.isSpelled s = false := by
  rw [h.listing?_eq, Except.ok.injEq, hcut, List.find?_append, List.find?_cons, hm]
  cases hfirst : before.find? fun l => l.code.isSpelled s with
  | none => simpa using List.find?_eq_none.mp hfirst
  | some l =>
      have hl : l ∈ before := List.mem_of_find?_eq_some hfirst
      have hspelled : l.code.isSpelled s = true := by simpa using List.find?_some hfirst
      have hdistinct := h.distinct
      rw [hcut] at hdistinct
      have hne := (List.pairwise_append.mp hdistinct).2.2 l hl m List.mem_cons_self
      refine iff_of_false (fun heq => ?_) fun hnone => ?_
      · exact hne (congrArg Listing.code (Option.some.inj heq))
      · rw [hnone l hl] at hspelled
        cases hspelled

theorem listing?_of_only (h : ListedByString c.listings) (hm : m ∈ c.listings)
    (hspelled : m.code.isSpelled s = true)
    (honly : ∀ l ∈ c.listings, l.code.isSpelled s = true → l = m) :
    c.listing? s = .ok (some m) := by
  rw [h.listing?_eq]
  cases hfirst : c.listings.find? fun l => l.code.isSpelled s with
  | none => exact absurd hspelled (by simpa using List.find?_eq_none.mp hfirst m hm)
  | some l =>
      rw [honly l (List.mem_of_find?_eq_some hfirst) (by simpa using List.find?_some hfirst)]

/-- The procedures of all modules with a spelling of the code are selected, and all procedures if
there is no code. -/
theorem selectModule_eq (h : ListedByString c.listings) (s : RawText) :
    selectModule s c.procedures =
      .ok ((c.listings.filter fun l => s.isEmpty || l.code.isSpelled s).flatMap
        (·.procedures)) := by
  rw [selectModule]
  cases hs : s.isEmpty with
  | true =>
      rw [if_pos rfl, procedures, List.filter_eq_self.mpr fun l _ => Bool.true_or _]
  | false =>
      have hstrings : ∀ p ∈ c.procedures, p.moduleCode.IsString := by
        intro p hp
        obtain ⟨l, hl, hp⟩ := List.mem_flatMap.mp hp
        rw [h.moduleCode l hl p hp]
        exact h.isString l hl
      rw [if_neg Bool.false_ne_true, filterModule_eq_filter hstrings, procedures]
      simp only [Bool.false_or]
      rw [filter_flatMap_of_forall fun l hl p hp => by rw [h.moduleCode l hl p hp]]

/-- As each module has procedures, those of one alone are selected only if no other is. -/
theorem selectModule_eq_iff (h : ListedByString c.listings) (hm : m ∈ c.listings)
    (hspelled : m.code.isSpelled s = true) :
    selectModule s c.procedures = .ok m.procedures ↔
      ∀ l ∈ c.listings, s.isEmpty = true ∨ l.code.isSpelled s = true → l = m := by
  have hkept : m ∈ c.listings.filter fun l => s.isEmpty || l.code.isSpelled s :=
    List.mem_filter.mpr ⟨hm, by rw [hspelled, Bool.or_true]⟩
  have hnonempty : ∀ l ∈ c.listings.filter fun l => s.isEmpty || l.code.isSpelled s,
      l.procedures ≠ [] := fun l hl => h.nonempty l (List.mem_of_mem_filter hl)
  have hnodup : c.listings.Nodup := h.distinct.imp fun hne heq => hne (congrArg Listing.code heq)
  rw [h.selectModule_eq, Except.ok.injEq, flatMap_eq_iff hnonempty hkept,
    filter_eq_singleton_iff hnodup hkept]
  simp only [Bool.or_eq_true]

end ListedByString

/-! ## Codes that are told apart -/

/-- No code that the rules give without a hint is empty, and no two differ in case only. -/
structure TellsApart (rules : Assign.Rules) : Prop where
  nonempty : Value.str [] ∉ rules.given
  apart : ∀ s t, .str s ∈ rules.given → .str t ∈ rules.given → s.lower = t.lower → s = t

theorem tellsApart_standard : TellsApart .standard := by
  let codes := Assign.Rules.standard.given.filterMap Value.text?
  have hcodes {s : RawText} (hs : .str s ∈ Assign.Rules.standard.given) : s ∈ codes :=
    List.mem_filterMap.mpr ⟨.str s, hs, rfl⟩
  have hempty : [] ∉ codes := by decide +kernel
  have hlower : ∀ s ∈ codes, ∀ t ∈ codes, s.lower = t.lower → s = t := by decide +kernel
  exact ⟨fun h => hempty (hcodes h), fun s t hs ht => hlower s (hcodes hs) t (hcodes ht)⟩

theorem code_mem_given {a : Analyzer} {blocks : List Script.Block}
    (h : build setting (a.analyze blocks) = .ok c) (hhints : a.hints = []) (hl : l ∈ c.listings) :
    l.code ∈ a.rules.given := by
  obtain ⟨-, listings, hlistings, rfl⟩ := build_eq_ok.mp h
  obtain ⟨p, hp, hcode⟩ := exists_of_mem_listingsOf hlistings hl
  obtain ⟨q, hq, rfl⟩ := List.mem_map.mp hp
  obtain ⟨_, _, _, assignment, hassign, hgiven⟩ := Analyzer.exists_assign_of_mem hq
  rw [hhints] at hassign
  rw [← hcode]
  change q.moduleCode ∈ _
  rw [hgiven]
  exact Assign.mem_given_of_assign hassign

theorem ListedByString.eq_of_tellsApart (h : ListedByString c.listings) (hrules : TellsApart rules)
    (hgiven : ∀ l ∈ c.listings, l.code ∈ rules.given) (hm : m ∈ c.listings)
    (hcode : m.code = .str s) (hl : l ∈ c.listings)
    (hpassed : s.isEmpty = true ∨ l.code.isSpelled s = true) : l = m := by
  have hs : .str s ∈ rules.given := hcode ▸ hgiven m hm
  rcases hpassed with hempty | hspelled
  · rw [List.isEmpty_iff.mp hempty] at hs
    exact absurd hs hrules.nonempty
  · obtain ⟨t, ht⟩ := h.isString l hl
    have htl : .str t ∈ rules.given := ht ▸ hgiven l hl
    rw [ht, Value.isSpelled, beq_iff_eq] at hspelled
    have hsame : l.code = m.code := by rw [ht, hcode, hrules.apart t s htl hs hspelled]
    exact List.inj_on_of_nodup_map (List.pairwise_map.mpr h.distinct) hl hm hsame

/-- A module is found by its code unless an earlier one has another spelling of it, and its
procedures are the selected ones unless some other module has, or there are others and its code is
empty. Under the standard rules and without hints there is no such module. -/
theorem found_and_selected (h : build setting analysis = .ok c) (hm : m ∈ c.listings)
    (hcode : m.code = .str s) :
    c.listing? s = .ok (c.listings.find? fun l => l.code.isSpelled s) ∧
      (∀ before behind, c.listings = before ++ m :: behind →
        (c.listing? s = .ok (some m) ↔ ∀ l ∈ before, l.code.isSpelled s = false)) ∧
      selectModule s c.procedures =
        .ok ((c.listings.filter fun l => s.isEmpty || l.code.isSpelled s).flatMap
          (·.procedures)) ∧
      (selectModule s c.procedures = .ok m.procedures ↔
        ∀ l ∈ c.listings, s.isEmpty = true ∨ l.code.isSpelled s = true → l = m) ∧
      ∀ (a : Analyzer) (blocks : List Script.Block), a.rules = .standard → a.hints = [] →
        analysis = a.analyze blocks →
          c.listing? s = .ok (some m) ∧ selectModule s c.procedures = .ok m.procedures := by
  have hlisted := listedByString_build h hm hcode
  have hspelled : m.code.isSpelled s = true := by
    rw [hcode, Value.isSpelled, beq_self_eq_true]
  refine ⟨hlisted.listing?_eq s, fun _ _ => hlisted.listing?_eq_iff hspelled,
    hlisted.selectModule_eq s, hlisted.selectModule_eq_iff hm hspelled, ?_⟩
  rintro a blocks hrules hhints rfl
  have honly (l : Listing) (hl : l ∈ c.listings) :
      s.isEmpty = true ∨ l.code.isSpelled s = true → l = m :=
    hlisted.eq_of_tellsApart (hrules ▸ tellsApart_standard)
      (fun l hl => code_mem_given h hhints hl) hm hcode hl
  exact ⟨hlisted.listing?_of_only hm hspelled fun l hl hl' => honly l hl (.inr hl'),
    (hlisted.selectModule_eq_iff hm hspelled).mpr honly⟩

/-! ## Hints beside name prefixes -/

def prefixedScript : Text :=
  "CREATE PROC dbo.DH_A AS\nSELECT 1\nGO\nCREATE PROC dbo.Sync AS\nSELECT 2\n".toList

/-- The catalog of a script with one procedure whose name tells its module, and one with a hint. -/
def hintedCatalog (hint : String) : Outcome Catalog :=
  build {} (Analyzer.analyze { hints := [(Text.raw "sync".toList, .text hint.toList)] }
    (Script.Splitter.split {} prefixedScript).1)

private theorem exists_hintedCatalog (hint : String) (first second : RawText)
    (hcodes : ((hintedCatalog hint).toOption.map fun c => c.listings.map fun l => l.code.text?) =
      some [some first, some second]) :
    ∃ c l m, hintedCatalog hint = .ok c ∧ c.listings = [l, m] ∧ l.code = .str first ∧
      m.code = .str second := by
  have hcode {v : Value} {s : RawText} (h : v.text? = some s) : v = .str s := by
    cases v <;> simp_all [Value.text?]
  cases hc : hintedCatalog hint with
  | error fault => simp [hc, Except.toOption] at hcodes
  | ok c =>
      rw [hc] at hcodes
      obtain ⟨l, rest, hlistings, hl, hrest⟩ := List.map_eq_cons_iff.mp (Option.some.inj hcodes)
      obtain ⟨m, rfl, hm⟩ := List.map_eq_singleton_iff.mp hrest
      exact ⟨c, l, m, rfl, hlistings, hcode hl, hcode hm⟩

theorem found_and_selected_of_other_letters : ∃ c m, hintedCatalog "SEC" = .ok c ∧
    m ∈ c.listings ∧ m.code = .text "SEC".toList ∧
      c.listing? (Text.raw "SEC".toList) = .ok (some m) ∧
        selectModule (Text.raw "SEC".toList) c.procedures = .ok m.procedures := by
  obtain ⟨c, l, m, hc, hlistings, hl, hm⟩ := exists_hintedCatalog "SEC"
    (Text.raw "DH".toList) (Text.raw "SEC".toList) (by decide +kernel)
  have hmem : m ∈ c.listings := by simp [hlistings]
  have hother : l.code.isSpelled (Text.raw "SEC".toList) = false := by
    rw [hl]
    decide +kernel
  obtain ⟨-, hfound, -, hselected, -⟩ := found_and_selected hc hmem hm
  refine ⟨c, m, hc, hmem, hm, (hfound [l] [] hlistings).mpr (by simpa using hother),
    hselected.mpr ?_⟩
  rintro x hx (hempty | hspelled)
  · cases hempty
  · rw [hlistings] at hx
    rcases List.mem_pair.mp hx with rfl | rfl
    · rw [hother] at hspelled
      cases hspelled
    · rfl

/-- The prefix of one procedure and the hint for another differ in case, and the module of the hint
is not found by its code. -/
theorem not_found_by_code : ∃ c m, hintedCatalog "dh" = .ok c ∧
    m ∈ c.listings ∧ m.code = .text "dh".toList ∧
      c.listing? (Text.raw "dh".toList) ≠ .ok (some m) ∧
        selectModule (Text.raw "dh".toList) c.procedures ≠ .ok m.procedures := by
  obtain ⟨c, l, m, hc, hlistings, hl, hm⟩ := exists_hintedCatalog "dh"
    (Text.raw "DH".toList) (Text.raw "dh".toList) (by decide +kernel)
  have hmem : m ∈ c.listings := by simp [hlistings]
  have hlisted := listedByString_build hc hmem hm
  have hfirst : l.code.isSpelled (Text.raw "dh".toList) = true := by
    rw [hl]
    decide +kernel
  have hsecond : m.code.isSpelled (Text.raw "dh".toList) = true := by
    rw [hm]
    decide +kernel
  have hne : l ≠ m := by
    rintro rfl
    exact absurd (Value.str.inj (hl.symm.trans hm)) (by decide)
  refine ⟨c, m, hc, hmem, hm, fun hfound => ?_, fun hselected => ?_⟩
  · have hcut : c.listings = [l] ++ m :: [] := hlistings
    have hnone := (hlisted.listing?_eq_iff hsecond hcut).mp hfound
    rw [hnone l List.mem_cons_self] at hfirst
    cases hfirst
  · refine hne ((hlisted.selectModule_eq_iff hmem hsecond).mp hselected l ?_ (.inr hfirst))
    simp [hlistings]

end Catalog

end ProcCatalog
