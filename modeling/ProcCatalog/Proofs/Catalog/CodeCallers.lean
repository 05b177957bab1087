import ProcCatalog.Proofs.Catalog.Building
import ProcCatalog.Proofs.Collaborator.Merging
import ProcCatalog.Proofs.Storage.Documents

/-!
# Callers in application code

A procedure of a catalog is listed with the callers that a cross-reference has for its name, the
case aside, whichever entries of the document they stand in.
-/

namespace ProcCatalog

open Storage (Folder)

namespace Collaborator

variable {entries entries' : List Value} {reference : CrossReference}

/-! ## Entries of other procedures -/

/-- One entry is moved past the next one, which names another procedure. -/
inductive Swaps : List Value → List Value → Prop
  | swap (before after : List Value) (a b : Value)
      (h : (named a procedureKeys).lower ≠ (named b procedureKeys).lower) :
      Swaps (before ++ a :: b :: after) (before ++ b :: a :: after)

/-- The entries in another order, but those of one procedure in the order in which they were. -/
abbrev Reordered : List Value → List Value → Prop := Relation.ReflTransGen Swaps

theorem Swaps.entriesUnder_eq (h : Swaps entries entries') (key : RawText) :
    entriesUnder entries' key = entriesUnder entries key := by
  obtain ⟨before, after, a, b, hab⟩ := h
  simp only [entriesUnder, List.filter_append, List.filter_cons, decide_eq_true_eq]
  -- One of the two at most is under the key, so it does not matter which one comes first.
  by_cases ha : named a procedureKeys ≠ [] ∧ (named a procedureKeys).lower = key
  · have hb : ¬(named b procedureKeys ≠ [] ∧ (named b procedureKeys).lower = key) :=
      fun hb => hab (ha.2.trans hb.2.symm)
    simp only [if_pos ha, if_neg hb]
  · simp only [if_neg ha]

theorem Reordered.entriesUnder_eq (h : Reordered entries entries') (key : RawText) :
    entriesUnder entries' key = entriesUnder entries key := by
  induction h with
  | refl => rfl
  | tail _ hswap ih => rw [hswap.entriesUnder_eq, ih]

/-! ## Labels -/

/-- The callers that are told for a name, whatever its case. -/
def sitesOf (entries : List Value) (name : Text) : List CallSite :=
  (entriesUnder entries (Text.raw (Text.lower name))).flatMap sitesIn

/-- The labels of some callers, ascending, each once. -/
structure Labels (sites : List CallSite) (labels : List RawText) : Prop where
  ascending : RawText.Ascending labels
  mem : ∀ l, l ∈ labels ↔ ∃ site ∈ sites, site.label = l

private theorem distinctKeys_strings (strings : List RawText) :
    distinctKeys (strings.map .str) = (distinct strings).map .str := by
  induction strings with
  | nil => rfl
  | cons s strings ih =>
      rw [List.map_cons, distinctKeys, ih, distinct, List.map_cons, List.filter_map]
      refine congrArg (fun rest : List RawText => Value.str s :: rest.map Value.str) ?_
      refine List.filter_congr fun t _ => ?_
      rw [Function.comp_apply, Bool.eq_iff_iff, Bool.not_eq_true', ← Bool.not_eq_true,
        Value.sameKey_str, decide_eq_true_eq, ne_comm]

theorem Merges.exists_labels (h : Merges entries reference) (name : Text) :
    ∃ labels : List RawText, reference.labels name = .ok (labels.map .str) ∧
      Labels (sitesOf entries name) labels := by
  rw [CrossReference.labels, sitesOf]
  cases hfound : reference.lookup (Text.raw (Text.lower name)) with
  | none =>
      rw [h.lookup_eq_none_iff.mp hfound]
      exact ⟨[], rfl, .nil, by simp⟩
  | some merged =>
      generalize hsites : (entriesUnder entries (Text.raw (Text.lower name))).flatMap sitesIn =
        sites
      have hcallers : merged.callers.map Caller.label =
          (sites.map CallSite.label).map Value.str := by
        rw [(h.merged _ _ hfound).callers, hsites, List.map_map, List.map_map]
        exact List.map_congr_left fun site _ => site.label_caller
      have hkeys : ((sites.map CallSite.label).map Value.str).all Value.isKey = true := by
        simp [Value.isKey]
      dsimp only
      rw [hcallers, if_pos hkeys, distinctKeys_strings, Value.sorted_strings]
      refine ⟨_, rfl, RawText.ascending_sortBy (nodup_distinct _), fun l => ?_⟩
      rw [mem_sortBy, mem_distinct, List.mem_map]

end Collaborator

/-! ## Catalogs -/

namespace Catalog

open Collaborator

variable {setting : Setting} {analysis : Analysis} {c : Catalog} {entries : List Value}

/-- The callers in application code are those that the entries tell for the name. -/
def ListsCallers (entries : List Value) (p : Procedure) : Prop :=
  ∃ labels : List RawText, p.codeCallers = labels.map .str ∧
    Labels (sitesOf entries p.name) labels

theorem hasLabels_of_merges {reference : CrossReference} (h : Merges entries reference)
    (ps : List Procedure) : HasLabels reference ps := by
  intro p _
  obtain ⟨labels, hlabels, -⟩ := h.exists_labels p.name
  exact ⟨_, hlabels⟩

theorem listsCallers_of_build (h : Merges entries setting.crossReference)
    (hbuild : build setting analysis = .ok c) {p : Procedure} (hp : p ∈ c.procedures) :
    ListsCallers entries p := by
  obtain ⟨-, listings, hlistings, rfl⟩ := build_eq_ok.mp hbuild
  obtain ⟨l, hl, hp⟩ := List.mem_flatMap.mp hp
  rw [procedures_of_mem_listingsOf hlistings hl, mem_sortBy] at hp
  obtain ⟨q, -, rfl⟩ := List.mem_map.mp (List.mem_of_mem_filter hp)
  obtain ⟨labels, hlabels, hall⟩ := h.exists_labels q.name
  refine ⟨labels, ?_, hall⟩
  rw [called, hlabels]
  rfl

/-- What a cross-reference keeps of a document: its entries, merged by the procedures they name,
and so in each catalog the callers of every procedure. -/
structure KeepsCallers (v : Value) (reference : CrossReference) : Prop where
  merges : Merges (procedureEntries v) reference
  /-- Nothing else is found if entries of different procedures come in another order. -/
  reordered : ∀ (folder : Folder) (path : Text) (v' : Value) (reference' : CrossReference),
    folder.readValue path = .ok v' → ReferenceTyped v' →
    Reordered (procedureEntries v) (procedureEntries v') →
    (loadCrossReference folder path).1 = .ok (some reference') →
      ∀ key, reference'.lookup key = reference.lookup key
  hasLabels : ∀ ps, HasLabels reference ps
  listsCallers : ∀ (setting : Setting) (analysis : Analysis) (c : Catalog),
    setting.crossReference = reference → build setting analysis = .ok c →
      ∀ p ∈ c.procedures, ListsCallers (procedureEntries v) p

theorem lookup_eq_of_reordered {folder : Folder} {path : Text} {v v' : Value}
    {reference reference' : CrossReference} (h : Merges (procedureEntries v) reference)
    (hread : folder.readValue path = .ok v') (hv' : ReferenceTyped v')
    (hreordered : Reordered (procedureEntries v) (procedureEntries v'))
    (hload : (loadCrossReference folder path).1 = .ok (some reference')) (key : RawText) :
    reference'.lookup key = reference.lookup key := by
  obtain ⟨loaded, hloaded, h'⟩ := exists_loadCrossReference hread hv'
  obtain rfl : reference' = loaded := Option.some.inj (Except.ok.inj (hload.symm.trans hloaded))
  exact h.lookup_eq h' (hreordered.entriesUnder_eq key)

/-- A document whose entries have parts of the right kinds is loaded without loss: the entries of
one procedure, the case of its name aside, are one entry with the first spelling, all the callers
and the first module, and catalogs list all these callers with the procedure. -/
theorem loads_without_loss {folder : Folder} {path : Text} {v : Value}
    (hread : folder.readValue path = .ok v) (hv : ReferenceTyped v) :
    ∃ reference, (loadCrossReference folder path).1 = .ok (some reference) ∧
      KeepsCallers v reference := by
  obtain ⟨reference, hload, hmerges⟩ := exists_loadCrossReference hread hv
  refine ⟨reference, hload, hmerges, ?_, hasLabels_of_merges hmerges, ?_⟩
  · intro folder' path' v' reference' hread' hv' hreordered hload'
    exact lookup_eq_of_reordered hmerges hread' hv' hreordered hload'
  · rintro setting analysis c rfl hbuild p hp
    exact listsCallers_of_build hmerges hbuild hp

/-- A cross-reference with two entries of one procedure and another entry between them. -/
def interleaved : Value :=
  let key (s : String) : RawText := Text.raw s.toList
  let text (s : String) : Value := .str (Text.raw s.toList)
  .arr [.obj [(key "name", text "dbo.A"), (key "callers", .arr [.obj [(key "file", text "f")]])],
    .obj [(key "name", text "B")],
    .obj [(key "name", text "a"), (key "module", text "SEC"),
      (key "calledFromFiles", .arr [text "g"])]]

def interleavedFolder : Folder where
  files := [(["x.json".toList], Storage.encodeUtf8 interleaved.write.chars)]

theorem loads_interleaved :
    interleavedFolder.readValue "x.json".toList = .ok interleaved ∧ ReferenceTyped interleaved ∧
      ∃ reference,
        (loadCrossReference interleavedFolder "x.json".toList).1 = .ok (some reference) ∧
          KeepsCallers interleaved reference := by
  have hholds : interleavedFolder.Holds "x.json".toList interleaved :=
    ⟨interleaved.write.chars, by decide +kernel, by decide +kernel⟩
  have hreadable : interleaved.Readable :=
    ⟨by decide +kernel, by decide +kernel, by decide +kernel, by decide +kernel⟩
  have hread := hholds.readValue_eq hreadable
  have htyped : ReferenceTyped interleaved := ⟨nofun, by decide +kernel, by decide +kernel⟩
  exact ⟨hread, htyped, loads_without_loss hread htyped⟩

end Catalog

end ProcCatalog
