import ProcCatalog.Cataloger
import ProcCatalog.Proofs.Catalog.Building

/-!
# Every block is accounted for

A block of a script is a procedure or a failure. The modules of a catalog part its procedures by
their codes: none is lost and none is listed twice.
-/

namespace ProcCatalog

/-! ## Analysis -/

/-- The procedure as it was analyzed, before it was asked who calls it. -/
def Procedure.withoutCallers (p : Procedure) : Procedure :=
  { p with codeCallers := [], procedureCallers := [] }

namespace Analyzer

/-- Whatever module is chosen for a procedure, its code is a string. -/
structure GivesStrings (a : Analyzer) : Prop where
  rules : a.rules.GivesStrings
  hints : a.hints.GiveStrings

variable (a : Analyzer) (blocks : List Script.Block)

theorem length_procedures_add_parseFailures :
    (a.analyze blocks).procedures.length + (a.analyze blocks).parseFailures = blocks.length := by
  rw [analyze]
  dsimp only
  induction blocks with
  | nil => rfl
  | cons block blocks ih =>
      rw [List.map_cons, List.filterMap_cons, List.countP_cons, List.length_cons, ← ih]
      cases a.analyzeBlock block with
      | error warning => simp [Except.toOption, Except.isOk, Except.toBool, Nat.add_assoc]
      | ok p =>
          simp [Except.toOption, Except.isOk, Except.toBool]
          omega

variable {a blocks}

theorem analyzeBlock_eq_ok {block : Script.Block} {p : Procedure} :
    a.analyzeBlock block = .ok p ↔
      ∃ d, Signature.Definition.parse? block.text block.startLine = some d ∧
        a.classify d = .ok p := by
  rw [analyzeBlock]
  cases Signature.Definition.parse? block.text block.startLine with
  | none => simp
  | some d => cases h : a.classify d <;> simp [Except.mapError, h]

theorem exists_classify_of_mem {p : Procedure} (hp : p ∈ (a.analyze blocks).procedures) :
    ∃ d, a.classify d = .ok p := by
  obtain ⟨result, hresult, hp⟩ := List.mem_filterMap.mp hp
  obtain ⟨block, -, rfl⟩ := List.mem_map.mp hresult
  cases hblock : a.analyzeBlock block with
  | error warning => simp [hblock, Except.toOption] at hp
  | ok q =>
      obtain rfl : q = p := by simpa [hblock, Except.toOption] using hp
      obtain ⟨d, -, hd⟩ := analyzeBlock_eq_ok.mp hblock
      exact ⟨d, hd⟩

theorem exists_assign_of_mem {p : Procedure} (hp : p ∈ (a.analyze blocks).procedures) :
    ∃ name schema tables assignment,
      Assign.assign a.rules a.hints name schema tables = .ok assignment ∧
        p.moduleCode = assignment.code := by
  obtain ⟨d, hd⟩ := exists_classify_of_mem hp
  obtain ⟨assignment, hassign, hd⟩ := Outcome.bind_eq_ok.mp hd
  rw [← Except.ok.inj hd]
  exact ⟨_, _, _, assignment, hassign, rfl⟩

theorem hasStringCodes_analyze (h : a.GivesStrings) :
    Catalog.HasStringCodes (a.analyze blocks).procedures := by
  intro p hp
  obtain ⟨_, _, _, assignment, hassign, hcode⟩ := exists_assign_of_mem hp
  rw [hcode]
  exact Assign.isString_of_assign h.rules h.hints hassign

theorem map_withoutCallers_analyze :
    (a.analyze blocks).procedures.map (·.withoutCallers) = (a.analyze blocks).procedures := by
  refine (List.map_congr_left fun p hp => ?_).trans (List.map_id _)
  obtain ⟨d, hd⟩ := exists_classify_of_mem hp
  obtain ⟨assignment, -, hd⟩ := Outcome.bind_eq_ok.mp hd
  rw [← Except.ok.inj hd]
  rfl

end Analyzer

/-! ## Catalogs -/

namespace Catalog

variable {setting : Setting} {analysis : Analysis} {c : Catalog} {ps : List Procedure}

/-- How a catalog accounts for the procedures that were found in some blocks. -/
structure Accounts (blocks : List Script.Block) (found : List Procedure) (c : Catalog) :
    Prop where
  candidates : c.candidateBlocks = blocks.length
  total : c.totalProcedures + c.parseFailures = c.candidateBlocks
  /-- No procedure is lost, and none is listed twice. -/
  complete : (c.procedures.map (·.withoutCallers)).Perm found
  nonempty : ∀ l ∈ c.listings, l.procedures ≠ []
  exact : ∀ l ∈ c.listings, ∀ p ∈ c.procedures, p ∈ l.procedures ↔ p.moduleCode = l.code
  ascending : ∃ codes : List RawText, c.listings.map (·.code) = codes.map .str ∧
    codes.Pairwise fun s t => RawText.le s t = true ∧ s ≠ t
  sorted : ∀ l ∈ c.listings, l.procedures.Pairwise fun p q => p.listedBefore q = true
  /-- Procedures that tie are listed as they come in the script. -/
  stable : ∀ l ∈ c.listings, ∀ key,
    (l.procedures.filter fun p => p.sortKey == key).map (·.withoutCallers) =
      found.filter fun p => p.sortKey == key && l.code.sameKey p.moduleCode

/-! ### Listings of string codes -/

private theorem sameKey_eq_false {s t : RawText} {p : Procedure} (hst : s ≠ t)
    (hs : (Value.str s).sameKey p.moduleCode = true) :
    (Value.str t).sameKey p.moduleCode = false := by
  refine Bool.eq_false_iff.mpr fun ht => hst ?_
  exact Value.sameKey_str.mp (Value.sameKey_trans hs (Value.sameKey_symm ht))

private theorem sameKey_iff_eq {s : RawText} {v : Value} (hv : v.IsString) :
    (Value.str s).sameKey v = true ↔ v = .str s := by
  obtain ⟨t, rfl⟩ := hv
  rw [Value.sameKey_str, Value.str.injEq, eq_comm]

private theorem perm_listings (rules : Assign.Rules) {codes : List RawText}
    (hstrings : HasStringCodes ps) (hcodes : Codes ps codes) :
    ((codes.map (listingWith rules ps)).flatMap (·.procedures)).Perm ps := by
  have hsorted : ((codes.map (listingWith rules ps)).flatMap (·.procedures)).Perm
      (codes.flatMap fun s => ps.filter fun p => (Value.str s).sameKey p.moduleCode) := by
    rw [List.flatMap_map]
    exact List.Perm.flatMap_left codes fun s _ => sortBy_perm _ _
  refine hsorted.trans (perm_flatMap_filter ?_ fun p hp => ?_)
  · exact hcodes.ascending.imp fun hst p hs => sameKey_eq_false hst.2 hs
  · obtain ⟨s, hs⟩ := hstrings p hp
    exact ⟨s, (hcodes.mem s).mpr ⟨p, hp, hs⟩, (sameKey_iff_eq ⟨s, hs⟩).mpr hs⟩

private theorem ranks_listedBefore : Ranks Procedure.listedBefore :=
  Text.ranks_le.lexLe.comap Procedure.sortKey

private theorem map_withoutCallers_withCallers (reference : Collaborator.CrossReference)
    (ps : List Procedure) :
    (withCallers reference ps).map (·.withoutCallers) = ps.map (·.withoutCallers) := by
  rw [withCallers, List.map_map]
  rfl

theorem totalProcedures_eq_length (c : Catalog) : c.totalProcedures = c.procedures.length := by
  rw [totalProcedures, procedures]
  induction c.listings with
  | nil => rfl
  | cons l ls ih => rw [List.map_cons, ProcCatalog.total, ih, List.flatMap_cons, List.length_append]

/-- Within a module, what ties is kept in order. -/
private theorem filter_procedures (rules : Assign.Rules) (s : RawText) (key : List Text) :
    ((listingWith rules ps s).procedures.filter fun p => p.sortKey == key) =
      ps.filter fun p => p.sortKey == key && (Value.str s).sameKey p.moduleCode := by
  have htie : ∀ p ∈ ps.filter (fun p => (Value.str s).sameKey p.moduleCode),
      ∀ q ∈ ps.filter (fun p => (Value.str s).sameKey p.moduleCode),
        (p.sortKey == key) = true → (q.sortKey == key) = true → p.listedBefore q = true := by
    intro p _ q _ hp hq
    rw [Procedure.listedBefore, eq_of_beq hp, eq_of_beq hq]
    exact (Text.ranks_le.lexLe).refl key
  rw [listingWith, filter_sortBy htie, List.filter_filter]

private theorem accounts_of_eq_ok {blocks : List Script.Block} {a : Analyzer} (h : a.GivesStrings)
    (hbuild : build setting (a.analyze blocks) = .ok c) :
    Accounts blocks (a.analyze blocks).procedures c := by
  obtain ⟨-, listings, hlistings, rfl⟩ := build_eq_ok.mp hbuild
  have hstrings : HasStringCodes
      (withCallers setting.crossReference (a.analyze blocks).procedures) :=
    (hasStringCodes_withCallers _).mpr (Analyzer.hasStringCodes_analyze h)
  have hbare := map_withoutCallers_withCallers setting.crossReference (a.analyze blocks).procedures
  rw [Analyzer.map_withoutCallers_analyze] at hbare
  -- The callers are put in before the procedures are grouped, and no part below reads them.
  generalize hps : withCallers setting.crossReference (a.analyze blocks).procedures = ps
    at hlistings hstrings hbare
  obtain ⟨codes, hcodes, heq⟩ := listingsOf_eq_ok setting.rules hstrings
  obtain rfl := Except.ok.inj (heq.symm.trans hlistings)
  have hperm := perm_listings setting.rules hstrings hcodes
  refine ⟨rfl, ?_, ?_, ?_, ?_, ⟨codes, by simp [listingWith], hcodes.ascending⟩, ?_, ?_⟩
  · rw [totalProcedures_eq_length]
    change List.length (List.flatMap _ _) + _ = blocks.length
    rw [hperm.length_eq, ← List.length_map (f := (·.withoutCallers)), hbare]
    exact Analyzer.length_procedures_add_parseFailures a blocks
  · rw [← hbare]
    exact hperm.map _
  · refine List.forall_mem_map.mpr fun s hs hnil => ?_
    obtain ⟨p, hp, hcode⟩ := (hcodes.mem s).mp hs
    have hmem : p ∈ (listingWith setting.rules ps s).procedures :=
      mem_sortBy.mpr (List.mem_filter.mpr ⟨hp, (sameKey_iff_eq ⟨s, hcode⟩).mpr hcode⟩)
    rw [hnil] at hmem
    cases hmem
  · refine List.forall_mem_map.mpr fun s hs p hp => ?_
    have hp : p ∈ ps := hperm.mem_iff.mp hp
    rw [listingWith, mem_sortBy, List.mem_filter, sameKey_iff_eq (hstrings p hp)]
    exact and_iff_right hp
  · exact List.forall_mem_map.mpr fun s hs => pairwise_sortBy ranks_listedBefore _
  · refine List.forall_mem_map.mpr fun s hs key => ?_
    rw [filter_procedures, ← hbare, List.filter_map]
    rfl

end Catalog

/-! ## Scripts at hand -/

theorem Script.length_split_le (text : Text) :
    (Splitter.split {} text).1.length ≤ (Splitter.split {} text).2.batchesSeen := by
  change (blocks _).length ≤ 0 + (batches _).length
  rw [Nat.zero_add, blocks]
  exact (List.length_filterMap_le _ _).trans (by rw [List.length_zipIdx])

namespace Cataloger

variable (c : Cataloger) (kept : Collaborators)

/-- The analyzer that goes with the collaborator files. -/
def analyzerWith : Analyzer where
  known := .ofList (kept.knownTables.filterMap RawText.text?)
  rules := c.rules
  hints := .ofEntries (kept.crossReference.getD []).hints
  previewLines := c.analysis.previewLines

def settingWith (batches : Nat) (name exportDate : Text) : Catalog.Setting where
  rules := c.rules
  crossReference := kept.crossReference.getD []
  hotspotLimit := c.analysis.hotspotLimit
  source := name
  exportDate
  totalBatches := batches

variable {c kept} {folder : Storage.Folder}

theorem result_analyzeText (hproblems : c.analysis.problems = [])
    (hkept : (c.collaboratorsFor folder).1 = .ok kept) (today text name : Text) :
    (c.analyzeText folder today text name).result =
      Catalog.build
        (c.settingWith kept (Script.Splitter.split {} text).2.batchesSeen name
          (ExportDate.resolve c.input.exportDate (Storage.baseName name) today))
        ((c.analyzerWith kept).analyze (Script.Splitter.split {} text).1) := by
  rw [analyzeText]
  dsimp only
  rw [runOn, hproblems]
  dsimp only
  cases hread : c.collaboratorsFor folder with
  | mk result warnings =>
      obtain rfl : result = .ok kept := by simpa [hread] using hkept
      rfl

end Cataloger

namespace Catalog

open Script (Splitter)

private theorem givesStrings_standard : Assign.Rules.standard.GivesStrings where
  aliases := List.forall_mem_map.mpr fun e _ => ⟨Text.raw e.2.toList, rfl⟩
  schemaModules := List.forall_mem_map.mpr fun e _ => ⟨Text.raw e.2.toList, rfl⟩

/-- A catalog accounts for all blocks of a script, and it is there as soon as the labels of all
callers can be listed. A script at hand has no more blocks than batches. -/
theorem accounts_of_blocks {a : Analyzer} (h : a.GivesStrings) (blocks : List Script.Block) :
    (∀ setting : Setting,
      ((∃ c, build setting (a.analyze blocks) = .ok c) ↔
        HasLabels setting.crossReference (a.analyze blocks).procedures) ∧
      ∀ c, build setting (a.analyze blocks) = .ok c →
        Accounts blocks (a.analyze blocks).procedures c) ∧
    ∀ (cataloger : Cataloger) (kept : Collaborators) (folder : Storage.Folder)
      (today text name : Text),
      cataloger.analysis.problems = [] → (cataloger.collaboratorsFor folder).1 = .ok kept →
      cataloger.analyzerWith kept = a → (Splitter.split {} text).1 = blocks →
        ((∃ c, (cataloger.analyzeText folder today text name).result = .ok c) ↔
          HasLabels (kept.crossReference.getD []) (a.analyze blocks).procedures) ∧
        ∀ c, (cataloger.analyzeText folder today text name).result = .ok c →
          Accounts blocks (a.analyze blocks).procedures c ∧ c.candidateBlocks ≤ c.totalBatches := by
  have hstrings : HasStringCodes (a.analyze blocks).procedures :=
    Analyzer.hasStringCodes_analyze h
  have hexists (setting : Setting) :
      (∃ c, build setting (a.analyze blocks) = .ok c) ↔
        HasLabels setting.crossReference (a.analyze blocks).procedures :=
    exists_build_iff.trans (and_iff_left hstrings.sortable)
  refine ⟨fun setting => ⟨hexists setting, fun c => accounts_of_eq_ok h⟩, ?_⟩
  rintro cataloger kept folder today text name hproblems hkept rfl rfl
  rw [Cataloger.result_analyzeText hproblems hkept]
  refine ⟨hexists _, fun c hc => ⟨accounts_of_eq_ok h hc, ?_⟩⟩
  obtain ⟨-, listings, -, rfl⟩ := build_eq_ok.mp hc
  exact Script.length_split_le text

/-- Two procedures that differ only in case, a block that names no procedure, and a batch that is no
block. -/
theorem accounts_of_two_spellings :
    ∃ c : Catalog, ∃ text : Text,
      text = "CREATE PROC a.P AS\nGO\nCREATE PROC (\nGO\nPRINT 1\nGO\nCREATE PROC a.p AS".toList ∧
      (Cataloger.analyzeText {} {} [] text []).result = .ok c ∧
      Accounts (Splitter.split {} text).1
        ((Cataloger.analyzerWith {} ⟨[], none⟩).analyze (Splitter.split {} text).1).procedures c ∧
      (c.totalProcedures, c.parseFailures, c.candidateBlocks, c.totalBatches) = (2, 1, 3, 4) ∧
      c.procedures.map (·.name) = ["P".toList, "p".toList] := by
  let text : Text :=
    "CREATE PROC a.P AS\nGO\nCREATE PROC (\nGO\nPRINT 1\nGO\nCREATE PROC a.p AS".toList
  have hstrings : (Cataloger.analyzerWith {} ⟨[], none⟩).GivesStrings :=
    ⟨givesStrings_standard, List.forall_mem_nil _⟩
  obtain ⟨hsome, haccounts⟩ := (accounts_of_blocks hstrings (Splitter.split {} text).1).2
    {} ⟨[], none⟩ {} [] text [] (by decide +kernel) rfl rfl rfl
  obtain ⟨c, hc⟩ := hsome.mpr fun _ _ => ⟨[], rfl⟩
  have hread : (((Cataloger.analyzeText {} {} [] text []).result.toOption.map fun c =>
      ((c.totalProcedures, c.parseFailures, c.candidateBlocks, c.totalBatches),
        c.procedures.map (·.name))) = some ((2, 1, 3, 4), ["P".toList, "p".toList])) := by
    decide +kernel
  rw [hc] at hread
  obtain ⟨hcounts, hnames⟩ := Prod.mk.inj (Option.some.inj hread)
  exact ⟨c, text, rfl, hc, (haccounts c hc).1, hcounts, hnames⟩

end Catalog

end ProcCatalog
