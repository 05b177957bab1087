import ProcCatalog.Collaborator.CrossReference
import ProcCatalog.Collaborator.KnownTables
import ProcCatalog.Proofs.Storage.Files

/-!
# Collaborator files that can be used

A file that is missing, or is no document, counts as absent. A document is used if what is walked
in it are lists and what is read as a name is a text; any other value there is a fault, and so is
a document that is nested too deep.
-/

namespace ProcCatalog.Collaborator

open Storage (Folder)

variable {v : Value} {keys : List String}

/-! ## Members -/

/-- The first of some members that holds anything has elements. -/
def Lists (v : Value) (keys : List String) : Prop :=
  ∀ w ∈ firstMember? v keys, w.elements?.isSome = true

/-- The first of some members that holds anything is a text. -/
def Names (v : Value) (keys : List String) : Prop :=
  ∀ w ∈ firstMember? v keys, w.text?.isSome = true

/-- The elements of such a member. -/
def listed (v : Value) (keys : List String) : List Value :=
  (firstMember? v keys).elim [] fun w => w.elements?.getD []

/-- The bare name that such a member gives. -/
def named (v : Value) (keys : List String) : RawText :=
  (firstMember? v keys).elim [] fun w => w.text?.elim [] Sql.bareName

theorem elements_eq_ok {vs : List Value} : v.elements = .ok vs ↔ v.elements? = some vs := by
  rw [Value.elements]
  cases v.elements? <;> simp

theorem elementsOf_eq_ok {vs : List Value} :
    elementsOf v keys = .ok vs ↔ Lists v keys ∧ listed v keys = vs := by
  rw [elementsOf, Lists, listed]
  cases firstMember? v keys with
  | none => simp
  | some w =>
      rw [Option.elim, elements_eq_ok]
      cases h : w.elements? <;> simp [h]

theorem bareNameOf_eq_ok {name : RawText} :
    bareNameOf v keys = .ok name ↔ Names v keys ∧ named v keys = name := by
  rw [bareNameOf, Names, named]
  cases firstMember? v keys with
  | none => simp
  | some w => cases w <;> simp [Value.text?]

theorem firstMember?_of_not_obj (h : ∀ members, v ≠ .obj members) (keys : List String) :
    firstMember? v keys = none := by
  have hmember (key : Text) : v.member? key = none := by
    cases v with
    | obj members => exact absurd rfl (h members)
    | _ => rfl
  rw [firstMember?, List.findSome?_eq_none_iff]
  simp [hmember]

/-! ## Known tables -/

def entriesIn : Value → List Value
  | .arr entries => entries
  | listing =>
    (listed listing ["modules"]).flatMap (listed · ["tables"]) ++ listed listing ["tables"]

structure TablesUsable (listing : Value) : Prop where
  modules : Lists listing ["modules"]
  nested : ∀ part ∈ listed listing ["modules"], Lists part ["tables"]
  tables : Lists listing ["tables"]
  names : ∀ entry ∈ entriesIn listing, Names entry ["name", "TABLE_NAME"]

private theorem moduleEntries_cons (part : Value) (parts : List Value) :
    tableEntries.moduleEntries (part :: parts) = (do
      let tables ← elementsOf part ["tables"]
      return tables ++ (← tableEntries.moduleEntries parts)) := by
  cases part with
  | obj members => rfl
  | _ =>
      change _ = do return [] ++ (← tableEntries.moduleEntries parts)
      cases h : tableEntries.moduleEntries parts <;> simp [tableEntries.moduleEntries, h]

private theorem moduleEntries_eq_ok {parts vs : List Value} :
    tableEntries.moduleEntries parts = .ok vs ↔
      (∀ part ∈ parts, Lists part ["tables"]) ∧ parts.flatMap (listed · ["tables"]) = vs := by
  induction parts generalizing vs with
  | nil => simp [tableEntries.moduleEntries]
  | cons part parts ih =>
      rw [List.forall_mem_cons, List.flatMap_cons, moduleEntries_cons]
      simp only [Outcome.bind_eq_ok, elementsOf_eq_ok, ih]
      constructor
      · rintro ⟨_, ⟨hpart, rfl⟩, _, ⟨hparts, rfl⟩, h⟩
        exact ⟨⟨hpart, hparts⟩, Except.ok.inj h⟩
      · rintro ⟨⟨hpart, hparts⟩, rfl⟩
        exact ⟨_, ⟨hpart, rfl⟩, _, ⟨hparts, rfl⟩, rfl⟩

theorem tableEntries_eq_ok {listing : Value} {vs : List Value} :
    tableEntries listing = .ok vs ↔
      (Lists listing ["modules"] ∧ (∀ part ∈ listed listing ["modules"], Lists part ["tables"]) ∧
        Lists listing ["tables"]) ∧ entriesIn listing = vs := by
  have hwalk : (elementsOf listing ["modules"] >>= fun parts => do
      let nested ← tableEntries.moduleEntries parts
      return nested ++ (← elementsOf listing ["tables"])) = .ok vs ↔
      (Lists listing ["modules"] ∧ (∀ part ∈ listed listing ["modules"], Lists part ["tables"]) ∧
        Lists listing ["tables"]) ∧ (listed listing ["modules"]).flatMap (listed · ["tables"]) ++
          listed listing ["tables"] = vs := by
    simp only [Outcome.bind_eq_ok, elementsOf_eq_ok, moduleEntries_eq_ok]
    constructor
    · rintro ⟨_, ⟨hmodules, rfl⟩, _, ⟨hnested, rfl⟩, _, ⟨htables, rfl⟩, h⟩
      exact ⟨⟨hmodules, hnested, htables⟩, Except.ok.inj h⟩
    · rintro ⟨⟨hmodules, hnested, htables⟩, rfl⟩
      exact ⟨_, ⟨hmodules, rfl⟩, _, ⟨hnested, rfl⟩, _, ⟨htables, rfl⟩, rfl⟩
  cases listing with
  | obj members => exact hwalk
  | arr entries => simp [tableEntries, entriesIn, Lists, listed, firstMember?_of_not_obj]
  | _ => exact hwalk

theorem exists_tableName_iff {entry : Value} :
    (∃ name, tableName entry = .ok name) ↔ Names entry ["name", "TABLE_NAME"] := by
  cases entry with
  | obj members => simp [tableName, bareNameOf_eq_ok]
  | _ => simp [tableName, Names, firstMember?_of_not_obj]

theorem exists_tableNames_iff {entries : List Value} :
    (∃ names, tableNames entries = .ok names) ↔
      ∀ entry ∈ entries, Names entry ["name", "TABLE_NAME"] := by
  induction entries with
  | nil => simp [tableNames]
  | cons entry entries ih =>
      rw [List.forall_mem_cons, ← ih, ← exists_tableName_iff]
      simp only [tableNames, Outcome.bind_eq_ok]
      constructor
      · rintro ⟨_, name, hname, names, hnames, -⟩
        exact ⟨⟨name, hname⟩, names, hnames⟩
      · rintro ⟨⟨name, hname⟩, names, hnames⟩
        exact ⟨_, name, hname, names, hnames, rfl⟩

/-! ## Cross-references -/

/-- The members that name a procedure. -/
abbrev procedureKeys : List String := ["sprocName", "procedureName", "name"]

/-- An entry names its procedure by a text, and the callers of a procedure that it names are in a
list; if there is none among them, so are the files it is called from. -/
structure EntryUsable (entry : Value) : Prop where
  name : Names entry procedureKeys
  callers : named entry procedureKeys ≠ [] → Lists entry ["callers", "calledBy"]
  files : named entry procedureKeys ≠ [] →
    (listed entry ["callers", "calledBy"]).filterMap callerOf? = [] →
      Lists entry ["calledFromFiles"]

def procedureEntries : Value → List Value
  | .arr entries => entries
  | v => listed v ["crossReference", "procedures"]

structure ReferenceUsable (v : Value) : Prop where
  entries : Lists v ["crossReference", "procedures"]
  each : ∀ entry ∈ procedureEntries v, EntryUsable entry

theorem entriesOf_eq_ok {vs : List Value} :
    entriesOf v = .ok vs ↔
      Lists v ["crossReference", "procedures"] ∧ procedureEntries v = vs := by
  have hmember : elementsOf v ["crossReference", "procedures"] = .ok vs ↔
      Lists v ["crossReference", "procedures"] ∧ listed v ["crossReference", "procedures"] = vs :=
    elementsOf_eq_ok
  cases v with
  | arr entries => simp [entriesOf, procedureEntries, Lists, firstMember?_of_not_obj]
  | _ => exact hmember

theorem exists_callersOf_iff {entry : Value} :
    (∃ callers, callersOf entry = .ok callers) ↔
      Lists entry ["callers", "calledBy"] ∧
        ((listed entry ["callers", "calledBy"]).filterMap callerOf? = [] →
          Lists entry ["calledFromFiles"]) := by
  simp only [callersOf, Outcome.bind_eq_ok, elementsOf_eq_ok]
  constructor
  · rintro ⟨callers, _, ⟨hcallers, rfl⟩, h⟩
    refine ⟨hcallers, fun hnone => ?_⟩
    rw [hnone] at h
    obtain ⟨_, hfiles, -⟩ := Outcome.bind_eq_ok.mp h
    exact (elementsOf_eq_ok.mp hfiles).1
  · rintro ⟨hcallers, hfiles⟩
    cases h : (listed entry ["callers", "calledBy"]).filterMap callerOf? with
    | nil =>
        refine ⟨(listed entry ["calledFromFiles"]).filterMap callerOfFile?, _, ⟨hcallers, rfl⟩, ?_⟩
        rw [h]
        exact Outcome.bind_eq_ok.mpr ⟨_, elementsOf_eq_ok.mpr ⟨hfiles h, rfl⟩, rfl⟩
    | cons caller callers =>
        refine ⟨caller :: callers, _, ⟨hcallers, rfl⟩, ?_⟩
        rw [h]
        rfl

theorem readEntries_cons (reference : CrossReference) (entry : Value)
    (entries : List Value) :
    readEntries reference (entry :: entries) = (do
      let name ← bareNameOf entry procedureKeys
      if name.isEmpty then readEntries reference entries
      else
        let callers ← callersOf entry
        readEntries (addEntry name.lower ⟨name, callers, hintOf? entry⟩ reference) entries) := by
  cases entry <;> rfl

theorem exists_readEntries_iff {entries : List Value} {reference : CrossReference} :
    (∃ read, readEntries reference entries = .ok read) ↔ ∀ entry ∈ entries, EntryUsable entry := by
  induction entries generalizing reference with
  | nil => simp [readEntries]
  | cons entry entries ih =>
      rw [List.forall_mem_cons, readEntries_cons]
      simp only [Outcome.bind_eq_ok, bareNameOf_eq_ok]
      by_cases hname : named entry procedureKeys = []
      · constructor
        · rintro ⟨read, _, ⟨hnames, rfl⟩, h⟩
          rw [if_pos (List.isEmpty_iff.mpr hname)] at h
          exact ⟨⟨hnames, fun h => absurd hname h, fun h => absurd hname h⟩, ih.mp ⟨read, h⟩⟩
        · rintro ⟨hentry, hentries⟩
          obtain ⟨read, hread⟩ := ih.mpr hentries
          refine ⟨read, _, ⟨hentry.name, rfl⟩, ?_⟩
          rwa [if_pos (List.isEmpty_iff.mpr hname)]
      · have hne : ¬ (named entry procedureKeys).isEmpty = true := by
          rwa [List.isEmpty_iff]
        constructor
        · rintro ⟨read, _, ⟨hnames, rfl⟩, h⟩
          rw [if_neg hne] at h
          obtain ⟨callers, hcallers, h⟩ := Outcome.bind_eq_ok.mp h
          obtain ⟨hlists, hfiles⟩ := exists_callersOf_iff.mp ⟨callers, hcallers⟩
          exact ⟨⟨hnames, fun _ => hlists, fun _ => hfiles⟩, ih.mp ⟨read, h⟩⟩
        · rintro ⟨hentry, hentries⟩
          obtain ⟨callers, hcallers⟩ :=
            exists_callersOf_iff.mpr ⟨hentry.callers hname, hentry.files hname⟩
          obtain ⟨read, hread⟩ := ih.mpr hentries
          refine ⟨read, _, ⟨hentry.name, rfl⟩, ?_⟩
          rw [if_neg hne]
          exact Outcome.bind_eq_ok.mpr ⟨callers, hcallers, hread⟩

/-! ## Files -/

/-- A file that holds a document is used if the document can be; any other one counts as absent,
unless it is nested too deep. -/
def FileUsable (usable : Value → Prop) (folder : Folder) (path : Text) : Prop :=
  match folder.readValue path with
  | .ok v => usable v
  | .error fault => fault ≠ .tooDeep

def isCaught (fault : Fault) : Bool := fault.isSystemFault || fault.isValueFault

private theorem isCaught_of_readBytes {folder : Folder} {path : Text} {fault : Fault}
    (h : folder.readBytes path = .error fault) : isCaught fault = true := by
  rw [Folder.readBytes] at h
  split at h
  · rename_i obstacle _
    obtain rfl := Except.error.inj h
    cases obstacle <;> rfl
  · split at h
    · cases h
    · cases h
      rfl
    · cases h
      rfl

theorem isCaught_of_readValue {folder : Folder} {path : Text} {fault : Fault}
    (h : folder.readValue path = .error fault) (hshallow : fault ≠ .tooDeep) :
    isCaught fault = true := by
  rcases Outcome.bind_eq_error.mp h with h | ⟨s, -, h⟩
  · rcases Outcome.bind_eq_error.mp h with h | ⟨bytes, -, h⟩
    · exact isCaught_of_readBytes h
    · split at h
      · cases h
      · cases h
        rfl
  · cases hread : Value.read s with
    | ok v => simp [hread, Except.mapError] at h
    | error e =>
        rw [hread] at h
        cases e <;> cases h
        · rfl
        · rfl
        · exact absurd rfl hshallow

theorem readFile_fst (folder : Folder) (file : CollaboratorFile) (path : Text) :
    (readFile folder file path).1 =
      match folder.readValue path with
      | .ok .null => .ok none
      | .ok v => .ok (some v)
      | .error .tooDeep => .error .tooDeep
      | .error _ => .ok none := by
  cases hfile : folder.isFile path with
  | false =>
      obtain ⟨fault, hbytes⟩ : ∃ fault, folder.readBytes path = .error fault := by
        cases hbytes : folder.readBytes path with
        | error fault => exact ⟨fault, rfl⟩
        | ok bytes =>
            rw [Folder.isFile_iff.mpr ⟨bytes, Folder.readBytes_eq_ok_iff.mp hbytes⟩] at hfile
            cases hfile
      have hvalue : folder.readValue path = .error fault :=
        Outcome.bind_eq_error.mpr (.inl (Outcome.bind_eq_error.mpr (.inl hbytes)))
      have habsent : (readFile folder file path).1 = .ok none := by
        rw [readFile, hfile]
        split <;> rfl
      rw [habsent, hvalue]
      have hcaught := isCaught_of_readBytes hbytes
      cases fault <;> first | rfl | exact absurd hcaught (by decide)
  | true =>
      have hpath : path.isEmpty = false := by
        cases path with
        | nil => cases hfile
        | cons => rfl
      rw [readFile, hpath, hfile]
      simp only [Bool.false_eq_true, if_false, if_true]
      cases h : folder.readValue path with
      | ok v => cases v <;> rfl
      | error fault =>
          by_cases hdeep : fault = .tooDeep
          · subst hdeep
            rfl
          · have hcaught := isCaught_of_readValue h hdeep
            rw [isCaught] at hcaught
            simp only [hcaught, if_true]

private theorem loadKnownTables_fst_eq (folder : Folder) (path : Text) :
    (loadKnownTables folder path).1 =
      match (readFile folder .knownTables path).1 with
      | .error fault => .error fault
      | .ok none => .ok []
      | .ok (some v) => do return distinct (← tableNames (← tableEntries v)) := by
  rw [loadKnownTables]
  rcases readFile folder .knownTables path with ⟨_ | _ | _, _⟩ <;> rfl

private theorem loadCrossReference_fst_eq (folder : Folder) (path : Text) :
    (loadCrossReference folder path).1 =
      match (readFile folder .crossReference path).1 with
      | .error fault => .error fault
      | .ok none => .ok none
      | .ok (some v) => do return some (← readEntries [] (← entriesOf v)) := by
  rw [loadCrossReference]
  rcases readFile folder .crossReference path with ⟨_ | _ | _, _⟩ <;> rfl

theorem loadKnownTables_fst {folder : Folder} {path : Text}
    (hread : folder.readValue path = .ok v) :
    (loadKnownTables folder path).1 =
      (do return distinct (← tableNames (← tableEntries v))) := by
  rw [loadKnownTables_fst_eq, readFile_fst, hread]
  cases v <;> rfl

theorem loadCrossReference_fst {folder : Folder} {path : Text}
    (hread : folder.readValue path = .ok v) (hnull : v ≠ .null) :
    (loadCrossReference folder path).1 =
      (do return some (← readEntries [] (← entriesOf v))) := by
  rw [loadCrossReference_fst_eq, readFile_fst, hread]
  cases v with
  | null => exact absurd rfl hnull
  | _ => rfl

private theorem exists_names_iff {listing : Value} :
    (∃ names, (do return distinct (← tableNames (← tableEntries listing)) :
      Outcome (List RawText)) = .ok names) ↔ TablesUsable listing := by
  simp only [Outcome.bind_eq_ok, tableEntries_eq_ok]
  constructor
  · rintro ⟨_, _, ⟨⟨hmodules, hnested, htables⟩, rfl⟩, names, hnames, -⟩
    exact ⟨hmodules, hnested, htables, exists_tableNames_iff.mp ⟨names, hnames⟩⟩
  · rintro ⟨hmodules, hnested, htables, hnames⟩
    obtain ⟨names, hnames⟩ := exists_tableNames_iff.mpr hnames
    exact ⟨distinct names, _, ⟨⟨hmodules, hnested, htables⟩, rfl⟩, names, hnames, rfl⟩

private theorem exists_reference_iff :
    (∃ reference, (do return some (← readEntries [] (← entriesOf v)) :
      Outcome (Option CrossReference)) = .ok reference) ↔ ReferenceUsable v := by
  simp only [Outcome.bind_eq_ok, entriesOf_eq_ok]
  constructor
  · rintro ⟨_, _, ⟨hentries, rfl⟩, reference, hread, -⟩
    exact ⟨hentries, exists_readEntries_iff.mp ⟨reference, hread⟩⟩
  · rintro ⟨hentries, heach⟩
    obtain ⟨reference, hread⟩ := exists_readEntries_iff.mpr heach
    exact ⟨some reference, _, ⟨hentries, rfl⟩, reference, hread, rfl⟩

theorem exists_loadKnownTables_iff (folder : Folder) (path : Text) :
    (∃ names, (loadKnownTables folder path).1 = .ok names) ↔
      FileUsable TablesUsable folder path := by
  rw [FileUsable]
  cases hvalue : folder.readValue path with
  | ok v => rw [loadKnownTables_fst hvalue, exists_names_iff]
  | error fault =>
      rw [loadKnownTables_fst_eq, readFile_fst, hvalue]
      cases fault <;> simp

theorem exists_loadCrossReference_iff (folder : Folder) (path : Text) :
    (∃ reference, (loadCrossReference folder path).1 = .ok reference) ↔
      FileUsable ReferenceUsable folder path := by
  rw [loadCrossReference_fst_eq, readFile_fst, FileUsable]
  cases folder.readValue path with
  | ok v =>
      refine Iff.trans ?_ exists_reference_iff
      cases v with
      | null => exact ⟨fun _ => ⟨some [], rfl⟩, fun _ => ⟨none, rfl⟩⟩
      | _ => exact Iff.rfl
  | error fault => cases fault <;> simp

end ProcCatalog.Collaborator
