import ProcCatalog.Proofs.Body.KnownTables
import ProcCatalog.Proofs.Body.Tier
import ProcCatalog.Proofs.Catalog.Accounting

/-!
# More known tables

When more tables are known, a body refers to all tables that it referred to before, and its
procedure does not fall to a lower tier.
-/

namespace ProcCatalog

open Body

theorem Analyzer.tier_of_classify {a : Analyzer} {d : Signature.Definition} {q : Procedure}
    (h : a.classify d = .ok q) :
    q.tier = Tier.classify (Text.lineCount d.body)
      (tables a.known (Sql.stripComments d.body)).length
      (Profile.detect (Sql.stripComments d.body)) := by
  obtain ⟨assignment, -, h⟩ := Outcome.bind_eq_ok.mp h
  rw [← Except.ok.inj h]

private theorem length_tables_append_le (known more : List Text) (s : Text) :
    (tables (.ofList known) s).length ≤ (tables (.ofList (known ++ more)) s).length := by
  have hnodup : (tables (.ofList known) s).Nodup := (Text.ascending_sortedSet _).imp And.right
  exact (hnodup.subperm (tables_subset_append known more s)).length_le

theorem keeps_with_more_tables (known more : List Text) :
    (∀ s, tables (.ofList known) s ⊆ tables (.ofList (known ++ more)) s) ∧
    (∀ {lines lines' count count' : Int} {p p' : Profile}, lines ≤ lines' → count ≤ count' →
      p.Within p' → (Tier.classify lines count p).rank ≤ (Tier.classify lines' count' p').rank) ∧
    ∀ (a : Analyzer) (block : Script.Block) {q q' : Procedure},
      { a with known := .ofList known }.analyzeBlock block = .ok q →
      { a with known := .ofList (known ++ more) }.analyzeBlock block = .ok q' →
        q.tier.rank ≤ q'.tier.rank := by
  refine ⟨tables_subset_append known more, Tier.rank_classify_le, fun a block q q' hq hq' => ?_⟩
  obtain ⟨d, hd, hq⟩ := Analyzer.analyzeBlock_eq_ok.mp hq
  obtain ⟨d', hd', hq'⟩ := Analyzer.analyzeBlock_eq_ok.mp hq'
  obtain rfl : d = d' := Option.some.inj (hd.symm.trans hd')
  rw [Analyzer.tier_of_classify hq, Analyzer.tier_of_classify hq']
  exact Tier.rank_classify_le le_rfl (Int.ofNat_le.mpr (length_tables_append_le known more _))
    (.refl _)

theorem keeps_with_two_more_tables :
    tables (.ofList []) "FROM A JOIN B".toList ⊆
      tables (.ofList ([] ++ [['A'], ['B']])) "FROM A JOIN B".toList ∧
    (Tier.classify 1 0 {}).rank ≤ (Tier.classify 20 2 { hasCursor := true }).rank ∧
    ∃ q q' : Procedure,
      { known := .ofList [] : Analyzer }.analyzeBlock
          ⟨"CREATE PROC a.P AS\nSELECT 1 FROM A JOIN B".toList, 0, 1⟩ = .ok q ∧
        q.tier = .trivial ∧
      { known := .ofList ([] ++ [['A'], ['B']]) : Analyzer }.analyzeBlock
          ⟨"CREATE PROC a.P AS\nSELECT 1 FROM A JOIN B".toList, 0, 1⟩ = .ok q' ∧
        q'.tier = .simple ∧
      q.tier.rank ≤ q'.tier.rank := by
  obtain ⟨hsubset, hmono, htier⟩ := keeps_with_more_tables [] [['A'], ['B']]
  have hread (a : Analyzer) (block : Script.Block) (tier : Tier)
      (h : (a.analyzeBlock block).toOption.map (·.tier) = some tier) :
      ∃ q, a.analyzeBlock block = .ok q ∧ q.tier = tier := by
    cases hblock : a.analyzeBlock block with
    | error warning => simp [hblock, Except.toOption] at h
    | ok q => exact ⟨q, rfl, by simpa [hblock, Except.toOption] using h⟩
  have hflags : Profile.Within {} { hasCursor := true } := by
    intro flag
    cases flag <;> decide
  obtain ⟨q, hq, hqtier⟩ := hread { known := .ofList [] }
    ⟨"CREATE PROC a.P AS\nSELECT 1 FROM A JOIN B".toList, 0, 1⟩ .trivial (by decide +kernel)
  obtain ⟨q', hq', hqtier'⟩ := hread { known := .ofList ([] ++ [['A'], ['B']]) }
    ⟨"CREATE PROC a.P AS\nSELECT 1 FROM A JOIN B".toList, 0, 1⟩ .simple (by decide +kernel)
  exact ⟨hsubset _, hmono (by decide) (by decide) hflags, q, q', hq, hqtier, hq', hqtier',
    htier {} _ hq hq'⟩

end ProcCatalog
