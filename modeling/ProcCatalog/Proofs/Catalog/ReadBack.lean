import ProcCatalog.Proofs.Catalog.Document
import ProcCatalog.Proofs.Catalog.Building
import ProcCatalog.Proofs.Catalog.Stats
import ProcCatalog.Proofs.Storage.Documents

/-!
# Exported documents read back

The documents of a catalog are objects without a repeated key, a few levels deep. What is deeper in
them was given from outside: module codes, display names and the labels of callers.
-/

namespace ProcCatalog

/-! ## Plain values -/

namespace Value

variable {α : Type} {n : Nat} {v : Value}

structure PlainWithin (n : Nat) (v : Value) : Prop where
  plain : v.Everywhere IsPlain
  shallow : v.height ≤ n

namespace PlainWithin

theorem mono {m : Nat} (h : PlainWithin n v) (hm : n ≤ m) : PlainWithin m v :=
  ⟨h.plain, h.shallow.trans hm⟩

theorem null : PlainWithin n null := ⟨trivial, Nat.zero_le n⟩

theorem bool (b : Bool) : PlainWithin n (bool b) := ⟨trivial, Nat.zero_le n⟩

theorem int (i : Int) : PlainWithin n (int i) := ⟨trivial, Nat.zero_le n⟩

theorem text (s : Text) : PlainWithin n (text s) := ⟨trivial, Nat.zero_le n⟩

theorem arr {vs : List Value} (h : ∀ v ∈ vs, PlainWithin n v) : PlainWithin (n + 1) (arr vs) where
  plain := everywhere_arr.mpr ⟨trivial, fun v hv => (h v hv).plain⟩
  shallow := height_arr_le.mpr fun v hv => (h v hv).shallow

theorem obj {ms : List (RawText × Value)} (hkeys : (ms.map (·.1)).Nodup)
    (h : ∀ m ∈ ms, PlainWithin n m.2) : PlainWithin (n + 1) (obj ms) where
  plain := everywhere_obj.mpr ⟨hkeys, fun m hm => (h m hm).plain⟩
  shallow := height_obj_le.mpr fun m hm => (h m hm).shallow

theorem texts (ts : List Text) : PlainWithin (n + 1) (texts ts) :=
  arr (List.forall_mem_map.mpr fun t _ => text t)

end PlainWithin

end Value

open Value (PlainWithin)

/-! ## Procedures -/

section

variable {n : Nat}

theorem Signature.Parameter.plainWithin_document (p : Signature.Parameter) :
    PlainWithin (n + 1) p.document := by
  refine .obj (by simp only [List.map, Value.member]; decide) ?_
  simp only [List.forall_mem_cons]
  refine ⟨.text _, .text _, .text _, ?_, List.forall_mem_nil _⟩
  cases p.default with
  | none => exact .null
  | some t => exact .text t

theorem Body.Profile.plainWithin_entries (p : Body.Profile) :
    PlainWithin (n + 1) (.obj p.entries) := by
  refine .obj (by simp only [entries, List.map, Value.member]; decide) ?_
  simp only [entries, List.forall_mem_cons]
  exact ⟨.bool _, .bool _, .bool _, .bool _, .int _, .bool _, .bool _, .bool _, .bool _, .bool _,
    List.forall_mem_nil _⟩

namespace Procedure

theorem plainWithin_summary {p : Procedure} (h : ∀ v ∈ p.codeCallers, PlainWithin (n + 1) v) :
    PlainWithin (n + 3) p.summary := by
  have hparameters : PlainWithin (n + 2) (.arr (p.parameters.map (·.document))) :=
    .arr (List.forall_mem_map.mpr fun q _ => q.plainWithin_document)
  refine .obj (by simp only [List.map, Value.member]; decide) ?_
  simp only [List.forall_mem_cons]
  exact ⟨.text _, .text _, hparameters, .int _, .text _, .texts _, .texts _, .texts _, .text _,
    p.profile.plainWithin_entries, .arr h, .text _, .text _, List.forall_mem_nil _⟩

theorem plainWithin_bodyDocument (p : Procedure) : PlainWithin (n + 2) p.bodyDocument := by
  refine .obj (by simp only [List.map, Value.member]; decide) ?_
  simp only [List.forall_mem_cons]
  exact ⟨.text _, .text _, .int _, .text _, .text _, .texts _, .texts _, .text _,
    List.forall_mem_nil _⟩

end Procedure

/-! ## Statistics and calls -/

structure Stats.DistinctLabels (s : Stats) : Prop where
  bySchema : (s.bySchema.map (·.1)).Nodup
  byIntent : (s.byIntent.map (·.1)).Nodup
  byTier : (s.byTier.map (·.1)).Nodup
  byFlag : (s.flagCounts.map (·.1)).Nodup

private theorem nodup_map_raw {labels : List Text} (h : labels.Nodup) :
    (labels.map Text.raw).Nodup :=
  h.map (List.map_injective_iff.mpr fun _ _ => CodePoint.char.inj)

theorem Tally.plainWithin_document {t : Tally} (h : (t.map (·.1)).Nodup) :
    PlainWithin (n + 1) t.document := by
  refine .obj ?_ (List.forall_mem_map.mpr fun e _ => .int _)
  have hkeys := nodup_map_raw h
  rw [List.map_map] at hkeys ⊢
  exact hkeys

theorem Stats.plainWithin_document {s : Stats} (h : s.DistinctLabels) :
    PlainWithin (n + 2) s.document := by
  have hflags : PlainWithin (n + 1)
      (.obj (s.flagCounts.map fun e => (Text.raw e.1, .int e.2))) := by
    refine .obj ?_ (List.forall_mem_map.mpr fun e _ => .int _)
    have hkeys := nodup_map_raw h.byFlag
    rw [List.map_map] at hkeys ⊢
    exact hkeys
  refine .obj (by simp only [List.map, Value.member]; decide) ?_
  simp only [List.forall_mem_cons]
  exact ⟨Tally.plainWithin_document h.bySchema, Tally.plainWithin_document h.byIntent,
    Tally.plainWithin_document h.byTier, hflags, List.forall_mem_nil _⟩

theorem CallGraph.Hotspot.plainWithin_document (h : CallGraph.Hotspot) :
    PlainWithin (n + 1) h.document := by
  refine .obj (by simp only [List.map, Value.member]; decide) ?_
  simp only [List.forall_mem_cons]
  exact ⟨.text _, .text _, .int _, .int _, List.forall_mem_nil _⟩

theorem CallGraph.Summary.plainWithin_document (s : CallGraph.Summary) :
    PlainWithin (n + 3) s.document := by
  have hcycles : PlainWithin (n + 2) (.arr (s.cycles.map Value.texts)) :=
    .arr (List.forall_mem_map.mpr fun _ _ => .texts _)
  have hhotspots : PlainWithin (n + 2) (.arr (s.hotspots.map (·.document))) :=
    .arr (List.forall_mem_map.mpr fun h _ => h.plainWithin_document)
  refine .obj (by simp only [List.map, Value.member]; decide) ?_
  simp only [List.forall_mem_cons]
  exact ⟨.int _, hcycles, hhotspots, .texts _, List.forall_mem_nil _⟩

theorem Stats.distinctLabels_ofFacts (ps : List Procedure) :
    (Stats.ofFacts (ps.map (·.fact))).DistinctLabels where
  bySchema := by
    refine ((sortBy_perm _ _).map _).nodup_iff.mpr ?_
    rw [Tally.countAll_nil, map_fst_numbered]
    exact nodup_distinct _
  byIntent := by
    rw [byIntent_ofFacts, map_fst_numbered]
    decide
  byTier := by
    rw [byTier_ofFacts, map_fst_numbered]
    decide
  byFlag := by
    rw [flagCounts, ofFacts, List.map_append, List.map_map, List.map_map]
    change (Body.Flag.all.map (fun flag => flag.label.toList) ++ ["nolockOccurrences".toList]).Nodup
    decide

/-! ## Modules -/

namespace Listing

/-- What is given from outside. -/
def given (l : Listing) : List Value :=
  l.code :: l.displayName :: l.procedures.flatMap (·.codeCallers)

variable {l : Listing}

theorem plainWithin_summary (h : ∀ v ∈ l.given, PlainWithin (n + 1) v) :
    PlainWithin (n + 5) l.summary := by
  simp only [given, List.forall_mem_cons] at h
  obtain ⟨hcode, hname, hcallers⟩ := h
  have hprocedures : PlainWithin (n + 4) (.arr (l.procedures.map (·.summary))) := by
    refine .arr (List.forall_mem_map.mpr fun p hp => Procedure.plainWithin_summary fun v hv => ?_)
    exact hcallers v (List.mem_flatMap.mpr ⟨p, hp, hv⟩)
  refine .obj (by simp only [List.map, Value.member]; decide) ?_
  simp only [List.forall_mem_cons]
  exact ⟨hcode.mono (by omega), hname.mono (by omega), .int _, hprocedures, List.forall_mem_nil _⟩

theorem plainWithin_bodies (h : ∀ v ∈ l.given, PlainWithin (n + 1) v) :
    PlainWithin (n + 5) l.bodies := by
  simp only [given, List.forall_mem_cons] at h
  have hprocedures : PlainWithin (n + 4) (.arr (l.procedures.map (·.bodyDocument))) :=
    .arr (List.forall_mem_map.mpr fun p _ => p.plainWithin_bodyDocument)
  refine .obj (by simp only [List.map, Value.member]; decide) ?_
  simp only [List.forall_mem_cons]
  exact ⟨h.1.mono (by omega), h.2.1.mono (by omega), .int _, hprocedures, List.forall_mem_nil _⟩

end Listing

/-! ## Catalogs -/

theorem Catalog.plainWithin_document {c : Catalog}
    (hgiven : ∀ l ∈ c.listings, ∀ v ∈ l.given, PlainWithin (n + 1) v)
    (hlabels : ∀ s ∈ c.stats, s.DistinctLabels) : PlainWithin (n + 7) c.document := by
  have hempty : PlainWithin (n + 6) (.obj []) := .obj .nil (List.forall_mem_nil _)
  have hstats : PlainWithin (n + 6) (c.stats.elim (.obj []) (·.document)) := by
    cases hs : c.stats with
    | none => exact hempty
    | some s => exact Stats.plainWithin_document (hlabels s hs)
  have hgraph : PlainWithin (n + 6) (c.callGraph.elim (.obj []) (·.document)) := by
    cases c.callGraph with
    | none => exact hempty
    | some s => exact s.plainWithin_document
  have hmodules : PlainWithin (n + 6) (.arr (c.listings.map (·.summary))) :=
    .arr (List.forall_mem_map.mpr fun l hl => Listing.plainWithin_summary (hgiven l hl))
  refine .obj (by simp only [List.map, Value.member]; decide) ?_
  simp only [List.forall_mem_cons]
  exact ⟨.text _, .text _, .int _, .int _, .int _, hstats, hgraph, hmodules, List.forall_mem_nil _⟩

end

namespace Catalog

open Storage (Folder FileName joinPath encodeChunks encodeUtf8 decodeUtf8)

variable {setting : Setting} {analysis : Analysis} {c : Catalog}

def documents (c : Catalog) : List Value := c.document :: c.listings.map (·.bodies)

/-- How deep what is given from outside may be nested, six levels below the catalog document. -/
def givenDepth : Nat := Value.deepestNesting - 6

/-- What is asked of a catalog whose documents are to be read: no half of a surrogate pair, and
nothing that the form of a document cannot hold or that is refused when it is read. Texts that are
given from outside are plain and not nested at all. -/
structure Readable (c : Catalog) : Prop where
  whole : ∀ l ∈ c.listings, l.isWhole = true
  given : ∀ l ∈ c.listings, ∀ v ∈ l.given, PlainWithin givenDepth v
  /-- As in every catalog that is built. -/
  labels : ∀ s ∈ c.stats, s.DistinctLabels
  numerals : ∀ v ∈ c.documents, v.Everywhere Value.NumeralFits

theorem distinctLabels_of_build (h : build setting analysis = .ok c) :
    ∀ s ∈ c.stats, s.DistinctLabels := by
  obtain ⟨-, listings, -, rfl⟩ := build_eq_ok.mp h
  rintro s ⟨⟩
  exact Stats.distinctLabels_ofFacts analysis.procedures

theorem readable_of_mem_documents (h : c.Readable) {v : Value} (hv : v ∈ c.documents) :
    v.Readable := by
  have hnumerals := h.numerals v hv
  rcases List.mem_cons.mp hv with rfl | hv
  · have hplain := plainWithin_document (n := givenDepth - 1) h.given h.labels
    refine ⟨?_, hplain.plain, hnumerals, hplain.shallow⟩
    rw [isWhole_document, List.all_eq_true]
    exact h.whole
  · obtain ⟨l, hl, rfl⟩ := List.mem_map.mp hv
    have hplain := Listing.plainWithin_bodies (n := givenDepth - 1) (h.given l hl)
    exact ⟨Listing.isWhole_bodies (h.whole l hl), hplain.plain, hnumerals,
      hplain.shallow.trans (by decide)⟩

/-- The text of each document is written whole, and decoded and read it is that document, also from
the file to which it was written. -/
theorem documents_read_back (h : c.Readable) :
    ∀ v ∈ c.documents,
      (∃ t, v.write = Text.raw t ∧ encodeChunks v.chunks = (encodeUtf8 t, true) ∧
        decodeUtf8 true (encodeUtf8 t) = .ok (t, []) ∧ Value.read t = .ok v) ∧
      ∀ (folder written : Folder) (path : Text),
        folder.writeChunks path v.chunks = (written, .ok ()) → written.readValue path = .ok v := by
  intro v hv
  have hreadable := readable_of_mem_documents h hv
  obtain ⟨t, ht⟩ := hreadable.exists_write_eq
  refine ⟨⟨t, ht, Storage.encodeChunks_eq ht, Storage.decodeUtf8_encodeUtf8 t,
    hreadable.read_eq ht⟩, fun folder written path hwritten => ?_⟩
  exact (Folder.holds_of_writeChunks hwritten).readValue_eq hreadable

/-- A name with a quote, a backslash and a line separator, and a body with breaks, a control
character and a character of two surrogates. -/
theorem documents_read_back_of_escapes :
    ∃ c : Catalog, ∃ written : Folder, c.Readable ∧
      (c.procedures.map fun p => (p.name, p.body)) =
        [("q\"\\\u2028".toList, "a\r\n\tb\u0001𝔸".toList)] ∧
      Folder.writeChunks {} "c.json".toList c.document.chunks = (written, .ok ()) ∧
      written.readValue "c.json".toList = .ok c.document ∧
      ∀ l ∈ c.listings, ∃ t, l.bodies.write = Text.raw t ∧ Value.read t = .ok l.bodies := by
  let p : Procedure :=
    { schema := "dbo".toList, name := "q\"\\\u2028".toList, body := "a\r\n\tb\u0001𝔸".toList
      codeCallers := [.text "A.cs::B".toList] }
  let c : Catalog :=
    { listings := [⟨.text "X".toList, .text "é".toList, [p]⟩], stats := some (.ofFacts [p.fact]) }
  have hread : c.Readable := by
    refine ⟨by decide, fun l hl v hv => ?_, ?_, by decide +kernel⟩
    · obtain rfl := List.mem_singleton.mp hl
      have hgiven : Listing.given ⟨.text "X".toList, .text "é".toList, [p]⟩ =
          ["X".toList, "é".toList, "A.cs::B".toList].map .text := rfl
      rw [hgiven] at hv
      obtain ⟨t, -, rfl⟩ := List.mem_map.mp hv
      exact .text t
    · rintro s ⟨⟩
      exact Stats.distinctLabels_ofFacts [p]
  obtain ⟨written, hwritten⟩ : ∃ written,
      Folder.writeChunks {} "c.json".toList c.document.chunks = (written, .ok ()) := by
    have hname : FileName "c.json".toList := ⟨by decide, by decide, by decide, by decide⟩
    obtain ⟨written, hputs⟩ :
        ∃ written, Folder.Puts {} (joinPath [] "c.json".toList) c.document written :=
      Folder.exists_puts_iff.mpr ⟨by decide, by decide⟩
    exact ⟨written, (Folder.writeChunks_joinPath hname).mpr hputs⟩
  have hdocuments := documents_read_back hread
  refine ⟨c, written, hread, rfl, hwritten, (hdocuments _ List.mem_cons_self).2 _ _ _ hwritten,
    fun l hl => ?_⟩
  obtain ⟨⟨t, ht, -, -, hbodies⟩, -⟩ :=
    hdocuments l.bodies (List.mem_cons_of_mem _ (List.mem_map_of_mem hl))
  exact ⟨t, ht, hbodies⟩

end Catalog

end ProcCatalog
