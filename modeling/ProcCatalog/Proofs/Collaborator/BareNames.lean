import ProcCatalog.Proofs.Body.KnownTables
import ProcCatalog.Proofs.Collaborator.Merging
import ProcCatalog.Proofs.Storage.Documents

/-!
# Bare names of listings

A listing of tables and a cross-reference keep of a name what follows its last dot, without
brackets. Statements go by the last part of a name. The two are the same for a name that is tight;
then a table or a procedure is found by what it is listed under, whatever else is listed.
-/

namespace ProcCatalog.Collaborator

open Sql (QualifiedName NamePart)
open Storage (Folder)

variable {entry : Value} {entries : List Value} {name : RawText} {reference : CrossReference}

/-! ## Names of entries -/

/-- An entry of a listing of tables is a name, or has one. -/
def NamesTable (entry : Value) (name : RawText) : Prop :=
  entry = .str name ∨ firstMember? entry ["name", "TABLE_NAME"] = some (.str name)

def NamesProcedure (entry : Value) (name : RawText) : Prop :=
  firstMember? entry procedureKeys = some (.str name)

theorem NamesTable.tableName_eq (h : NamesTable entry name) :
    tableName entry = .ok (Sql.bareName name) := by
  rcases h with rfl | h
  · rfl
  · cases entry with
    | obj members => rw [tableName, bareNameOf, h]
    | _ => simp [firstMember?_of_not_obj] at h

theorem NamesProcedure.named_eq (h : NamesProcedure entry name) :
    named entry procedureKeys = Sql.bareName name := by
  rw [named, h]
  rfl

theorem NamesProcedure.bareNameOf_eq (h : NamesProcedure entry name) :
    bareNameOf entry procedureKeys = .ok (Sql.bareName name) := by
  rw [bareNameOf, h]

/-! ## What is loaded -/

theorem mem_tableNames_iff {names : List RawText} (h : tableNames entries = .ok names) :
    name ∈ names ↔ name ≠ [] ∧ ∃ entry ∈ entries, tableName entry = .ok name := by
  induction entries generalizing names with
  | nil =>
      cases h
      simp
  | cons entry entries ih =>
      simp only [tableNames, Outcome.bind_eq_ok] at h
      obtain ⟨first, hfirst, rest, hrest, h⟩ := h
      obtain rfl := Except.ok.inj h
      rw [List.exists_mem_cons_iff, hfirst, Except.ok.injEq]
      cases hempty : first.isEmpty with
      | true =>
          obtain rfl := List.isEmpty_iff.mp hempty
          rw [if_pos rfl, ih hrest]
          refine and_congr_right fun hname => (or_iff_right ?_).symm
          exact fun heq => hname heq.symm
      | false =>
          have hfirst := List.isEmpty_eq_false_iff.mp hempty
          rw [if_neg Bool.false_ne_true, List.mem_cons, ih hrest, eq_comm (a := name)]
          constructor
          · rintro (rfl | ⟨hname, hentry⟩)
            · exact ⟨hfirst, .inl rfl⟩
            · exact ⟨hname, .inr hentry⟩
          · rintro ⟨hname, heq | hentry⟩
            · exact .inl heq
            · exact .inr ⟨hname, hentry⟩

/-- A listing that can be used gives the bare names of its entries. -/
theorem exists_loadKnownTables {folder : Folder} {path : Text} {v : Value}
    (hread : folder.readValue path = .ok v) (hv : TablesUsable v) :
    ∃ tables, (loadKnownTables folder path).1 = .ok tables ∧ ∀ name, name ∈ tables ↔
      name ≠ [] ∧ ∃ entry ∈ entriesIn v, tableName entry = .ok name := by
  have hentries : tableEntries v = .ok (entriesIn v) :=
    tableEntries_eq_ok.mpr ⟨⟨hv.modules, hv.nested, hv.tables⟩, rfl⟩
  obtain ⟨names, hnames⟩ := exists_tableNames_iff.mpr hv.names
  refine ⟨distinct names, ?_, fun name => mem_distinct.trans (mem_tableNames_iff hnames)⟩
  rw [loadKnownTables_fst hread]
  exact Outcome.bind_eq_ok.mpr ⟨_, hentries, Outcome.bind_eq_ok.mpr ⟨_, hnames, rfl⟩⟩

theorem mem_keys_readEntries_iff {read : CrossReference}
    (h : readEntries reference entries = .ok read) {key : RawText} :
    key ∈ read.map (·.1) ↔ key ∈ reference.map (·.1) ∨ ∃ entry ∈ entries,
      named entry procedureKeys ≠ [] ∧ (named entry procedureKeys).lower = key := by
  induction entries generalizing reference with
  | nil =>
      cases h
      simp
  | cons entry entries ih =>
      rw [readEntries_cons] at h
      simp only [Outcome.bind_eq_ok, bareNameOf_eq_ok] at h
      obtain ⟨_, ⟨-, rfl⟩, h⟩ := h
      rw [List.exists_mem_cons_iff]
      by_cases hname : named entry procedureKeys = []
      · rw [if_pos (List.isEmpty_iff.mpr hname)] at h
        simp [ih h, hname]
      · rw [if_neg (mt List.isEmpty_iff.mp hname)] at h
        obtain ⟨callers, -, h⟩ := Outcome.bind_eq_ok.mp h
        rw [ih h, mem_keys_addEntry, or_assoc]
        simp [hname]

/-- A cross-reference that can be used has a key for each procedure that is named. -/
theorem exists_isSome_lookup_iff {folder : Folder} {path : Text} {v : Value}
    (hread : folder.readValue path = .ok v) (hnull : v ≠ .null) (hv : ReferenceUsable v) :
    ∃ reference, (loadCrossReference folder path).1 = .ok (some reference) ∧
      ∀ key, (reference.lookup key).isSome = true ↔ ∃ entry ∈ procedureEntries v,
        named entry procedureKeys ≠ [] ∧ (named entry procedureKeys).lower = key := by
  have hentries : entriesOf v = .ok (procedureEntries v) := entriesOf_eq_ok.mpr ⟨hv.entries, rfl⟩
  obtain ⟨reference, hreference⟩ := exists_readEntries_iff.mpr hv.each
  refine ⟨reference, ?_, fun key => ?_⟩
  · rw [loadCrossReference_fst hread hnull]
    exact Outcome.bind_eq_ok.mpr ⟨_, hentries, Outcome.bind_eq_ok.mpr ⟨_, hreference, rfl⟩⟩
  · rw [Option.isSome_iff_ne_none, Ne, lookup_eq_none_iff_not_mem, not_not,
      mem_keys_readEntries_iff hreference]
    simp

/-! ## What is found -/

/-- Some known tables are enough to recognise each reference that is written as the name, if what
it is written with can be a table. -/
def Recognises (tables : List RawText) (n : QualifiedName) : Prop :=
  ∀ s, n.write ∈ Body.objectNames Body.tableReference s →
    Body.isTemporary n.last.bare = false →
    (n.further = [] → Sql.isKeyword n.last.bare = false) →
    ∃ t ∈ Body.tables (.ofList (tables.filterMap RawText.text?)) s,
      Text.lower t = Text.lower n.last.bare

theorem recognises_of_mem {tables : List RawText} {n : QualifiedName}
    (h : Text.raw n.last.bare ∈ tables) : Recognises tables n := by
  intro s hs htemporary hkeyword
  obtain ⟨t, ht, hlower⟩ : ∃ t, (Body.KnownTables.ofList
      (tables.filterMap RawText.text?)).resolve n.write = some t ∧
        Text.lower t = Text.lower n.last.bare := by
    rw [Body.KnownTables.resolve_write, htemporary, Body.KnownTables.spelling?_ofList]
    by_cases hone : n.further = []
    · rw [if_neg Bool.false_ne_true, if_pos hone, hkeyword hone, if_neg Bool.false_ne_true]
      have hmem : n.last.bare ∈ tables.filterMap RawText.text? :=
        List.mem_filterMap.mpr ⟨_, h, RawText.text?_raw _⟩
      cases hfind : (tables.filterMap RawText.text?).find? fun k =>
          Text.lower k == Text.lower n.last.bare with
      | none => exact absurd (List.find?_eq_none.mp hfind _ hmem) (by simp)
      | some t => exact ⟨t, rfl, by simpa using List.find?_some hfind⟩
    · rw [if_neg Bool.false_ne_true, if_neg hone]
      exact ⟨_, rfl, rfl⟩
  exact ⟨t, Text.mem_sortedSet.mpr (List.mem_filterMap.mpr ⟨_, hs, ht⟩), hlower⟩

/-- What is kept of the name of a table, and when references find it. -/
structure KeepsTable (tables : List RawText) (n : QualifiedName) (kept : RawText) : Prop where
  mem : kept ≠ [] → kept ∈ tables
  eq_iff : kept = Text.raw n.last.bare ↔ n.Tight
  recognises : n.Tight → Recognises tables n

/-- What is kept of the name of a procedure, and when the procedure finds its callers. -/
structure KeepsProcedure (reference : CrossReference) (n : QualifiedName) (kept : RawText) :
    Prop where
  mem : kept ≠ [] → (reference.lookup kept.lower).isSome = true
  eq_iff : kept = Text.raw n.last.bare ↔ n.Tight
  recognises : n.Tight → (reference.lookup (Text.raw (Text.lower n.last.bare))).isSome = true

private theorem raw_bare_ne_nil (n : QualifiedName) : Text.raw n.last.bare ≠ [] :=
  mt List.map_eq_nil_iff.mp n.last.bare_ne_nil

/-- The parts of a name are read the same everywhere only where the name is tight: the last part is
then what is kept of an entry, and what finds the entry. -/
theorem keeps_last_part_iff_tight (n : QualifiedName) :
    Sql.nameParts n.write = n.parts.map NamePart.bare ∧
    (∀ (folder : Folder) (path : Text) (v : Value), folder.readValue path = .ok v →
      TablesUsable v → ∃ tables, (loadKnownTables folder path).1 = .ok tables ∧
        ∀ entry ∈ entriesIn v, NamesTable entry (Text.raw n.write) →
          ∃ kept, tableName entry = .ok kept ∧ KeepsTable tables n kept) ∧
    ∀ (folder : Folder) (path : Text) (v : Value), folder.readValue path = .ok v → v ≠ .null →
      ReferenceUsable v → ∃ reference,
        (loadCrossReference folder path).1 = .ok (some reference) ∧
        ∀ entry ∈ procedureEntries v, NamesProcedure entry (Text.raw n.write) →
          ∃ kept, bareNameOf entry procedureKeys = .ok kept ∧ KeepsProcedure reference n kept := by
  have htight := Sql.bareName_write_eq_iff n
  refine ⟨n.nameParts_write, ?_, ?_⟩
  · intro folder path v hread hv
    obtain ⟨tables, hload, hmem⟩ := exists_loadKnownTables hread hv
    refine ⟨tables, hload, fun entry hentry hnames => ⟨_, hnames.tableName_eq, ?_⟩⟩
    have hkept (hne : Sql.bareName (Text.raw n.write) ≠ []) :=
      (hmem _).mpr ⟨hne, entry, hentry, hnames.tableName_eq⟩
    refine ⟨hkept, htight, fun h => recognises_of_mem ?_⟩
    rw [htight.mpr h] at hkept
    exact hkept (raw_bare_ne_nil n)
  · intro folder path v hread hnull hv
    obtain ⟨reference, hload, hlookup⟩ := exists_isSome_lookup_iff hread hnull hv
    refine ⟨reference, hload, fun entry hentry hnames => ⟨_, hnames.bareNameOf_eq, ?_⟩⟩
    have hkept (hne : Sql.bareName (Text.raw n.write) ≠ []) :=
      (hlookup _).mpr ⟨entry, hentry, by rwa [hnames.named_eq], by rw [hnames.named_eq]⟩
    refine ⟨hkept, htight, fun h => ?_⟩
    rw [htight.mpr h, RawText.lower_raw] at hkept
    exact hkept (raw_bare_ne_nil n)

/-- A listing of a name with a blank in it and one in front of the dot. -/
def spacedListing : Value := .arr [.str (Text.raw "[dbo] .[Sales Lines]".toList)]

def spacedReference : Value :=
  .arr [.obj [(Text.raw "name".toList, .str (Text.raw "[dbo] .[Sales Lines]".toList))]]

def spacedFolder : Folder where
  files := [(["t.json".toList], Storage.encodeUtf8 spacedListing.write.chars),
    (["x.json".toList], Storage.encodeUtf8 spacedReference.write.chars)]

theorem keeps_last_part_of_spaced_name :
    ∃ n : QualifiedName, n.write = "[dbo] .[Sales Lines]".toList ∧ n.Tight ∧
      (∃ tables, (loadKnownTables spacedFolder "t.json".toList).1 = .ok tables ∧
        KeepsTable tables n (Text.raw "Sales Lines".toList)) ∧
      ∃ reference, (loadCrossReference spacedFolder "x.json".toList).1 = .ok (some reference) ∧
        KeepsProcedure reference n (Text.raw "Sales Lines".toList) := by
  let n : QualifiedName := {
    first := .bracketed (.ofAll "dbo".toList rfl rfl)
    further := [{
      left := [' ']
      right := []
      part := .bracketed (.ofAll "Sales Lines".toList rfl rfl)
      blank_left := List.forall_mem_singleton.mpr rfl
      blank_right := List.forall_mem_nil _ }] }
  have hwrite : n.write = "[dbo] .[Sales Lines]".toList := rfl
  have htight : n.Tight := by decide +kernel
  obtain ⟨-, htables, hprocedures⟩ := keeps_last_part_iff_tight n
  have hlisting : spacedFolder.readValue "t.json".toList = .ok spacedListing :=
    Folder.Holds.readValue_eq ⟨spacedListing.write.chars, by decide +kernel, by decide +kernel⟩
      ⟨by decide +kernel, by decide +kernel, by decide +kernel, by decide +kernel⟩
  have hreference : spacedFolder.readValue "x.json".toList = .ok spacedReference :=
    Folder.Holds.readValue_eq ⟨spacedReference.write.chars, by decide +kernel, by decide +kernel⟩
      ⟨by decide +kernel, by decide +kernel, by decide +kernel, by decide +kernel⟩
  have htablesUsable : TablesUsable spacedListing := by
    refine ⟨?_, ?_, ?_, ?_⟩ <;>
      simp [spacedListing, entriesIn, Lists, listed, Names, firstMember?_of_not_obj]
  have hentry : ∀ entry ∈ procedureEntries spacedReference, EntryTyped entry := by decide +kernel
  have hreferenceUsable : ReferenceUsable spacedReference :=
    ⟨by simp [spacedReference, Lists, firstMember?_of_not_obj],
      fun entry h => (hentry entry h).usable⟩
  obtain ⟨tables, hload, hkeeps⟩ := htables _ _ _ hlisting htablesUsable
  obtain ⟨reference, hloaded, hkept⟩ :=
    hprocedures _ _ _ hreference (by simp [spacedReference]) hreferenceUsable
  obtain ⟨table, -, htable⟩ := hkeeps _ List.mem_cons_self (.inl (hwrite ▸ rfl))
  obtain ⟨procedure, -, hprocedure⟩ := hkept _ List.mem_cons_self (hwrite ▸ rfl)
  obtain rfl := htable.eq_iff.mpr htight
  obtain rfl := hprocedure.eq_iff.mpr htight
  exact ⟨n, hwrite, htight, ⟨tables, hload, htable⟩, reference, hloaded, hprocedure⟩

def cutFolder : Folder where
  files := [
    (["t.json".toList],
      Storage.encodeUtf8 "[\"[dbo].[Order.Details]\", \"dbo . Users\"]".toList),
    (["x.json".toList], Storage.encodeUtf8 "[\x7b\"name\": \"[dbo].[Load.All]\"\x7d]".toList)]

/-- A name in brackets is cut at a dot of its own, and a blank behind a dot is kept, so nothing that
is listed in this way is found. -/
theorem not_keeps_last_part :
    Sql.nameParts "[dbo].[Order.Details]".toList = ["dbo".toList, "Order.Details".toList] ∧
    Sql.nameParts "dbo . Users".toList = ["dbo".toList, "Users".toList] ∧
    Sql.nameParts "[dbo].[Load.All]".toList = ["dbo".toList, "Load.All".toList] ∧
    (loadKnownTables cutFolder "t.json".toList).1 =
      .ok [Text.raw "Details".toList, Text.raw " Users".toList] ∧
    Body.tables (.ofList ["Details".toList, " Users".toList])
      "SELECT 1 FROM [Order.Details] JOIN Users ON 1 = 1".toList = [] ∧
    ((loadCrossReference cutFolder "x.json".toList).1.map fun reference =>
      reference.map fun entries => entries.map (·.1)) = .ok (some [Text.raw "all".toList]) := by
  decide +kernel

end ProcCatalog.Collaborator
