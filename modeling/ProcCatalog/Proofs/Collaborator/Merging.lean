import ProcCatalog.Proofs.Collaborator.Usable
import ProcCatalog.Proofs.Value.Keys

/-!
# Entries of one procedure are merged

Entries that name one procedure, case and schema aside, are one entry of a cross-reference: under
the first spelling, with the callers of all of them in the order of the file, and with the first
module that is named. None is lost, and entries of other procedures do not matter.
-/

namespace ProcCatalog.Collaborator

open Storage (Folder)

variable {v : Value} {keys : List String} {entry : Value} {entries : List Value}
  {reference : CrossReference}

/-! ## Members of one kind -/

/-- Whatever some members hold is of a kind; an empty one holds nothing. -/
def Holds (kind : Value → Prop) (v : Value) (keys : List String) : Prop :=
  ∀ key ∈ keys, ∀ w, v.member? key.toList = some w → w.isTruthy = true → kind w

/-- The string that the first of some members holds. -/
def textIn (v : Value) (keys : List String) : RawText :=
  (firstMember? v keys).elim [] fun w => w.text?.getD []

instance {kind : Value → Prop} [DecidablePred kind] : Decidable (Holds kind v keys) :=
  inferInstanceAs (Decidable (∀ key ∈ keys, ∀ w ∈ v.member? key.toList, w.isTruthy = true → kind w))

theorem Holds.kind_of_firstMember? {kind : Value → Prop} (h : Holds kind v keys) {w : Value}
    (hw : firstMember? v keys = some w) : kind w ∧ w.isTruthy = true := by
  obtain ⟨key, hkey, hmember⟩ := List.exists_of_findSome?_eq_some hw
  obtain ⟨hmember, htruthy⟩ := Option.filter_eq_some_iff.mp hmember
  exact ⟨h key hkey w hmember htruthy, htruthy⟩

theorem Holds.mono {kind : Value → Prop} (h : Holds kind v keys) (keys' : List String)
    (hkeys : ∀ key ∈ keys', key ∈ keys) : Holds kind v keys' :=
  fun key hkey => h key (hkeys key hkey)

theorem Holds.names (h : Holds Value.IsString v keys) : Names v keys := by
  intro w hw
  obtain ⟨⟨s, rfl⟩, -⟩ := h.kind_of_firstMember? hw
  rfl

theorem Holds.lists {kind : Value → Prop} (h : Holds kind v keys)
    (hkind : ∀ w, kind w → ∃ items, w = .arr items) : Lists v keys := by
  intro w hw
  obtain ⟨items, rfl⟩ := hkind w (h.kind_of_firstMember? hw).1
  rfl

theorem firstMember?_eq (h : Holds Value.IsString v keys) :
    firstMember? v keys = if textIn v keys = [] then none else some (.str (textIn v keys)) := by
  rw [textIn]
  cases hfirst : firstMember? v keys with
  | none => rfl
  | some w =>
      obtain ⟨⟨s, rfl⟩, htruthy⟩ := h.kind_of_firstMember? hfirst
      have hne : s ≠ [] := by
        rintro rfl
        cases htruthy
      simp [Value.text?, hne]

/-! ## Callers -/

/-- A place of application code from which a procedure is called. -/
structure CallSite where
  file : RawText
  method : RawText
  deriving DecidableEq, Repr

namespace CallSite

def caller (site : CallSite) : Caller := ⟨.str site.file, .str site.method⟩

def label (site : CallSite) : RawText :=
  if site.method = [] then site.file else site.file ++ Text.raw "::".toList ++ site.method

theorem label_caller (site : CallSite) : site.caller.label = .str site.label := by
  rw [Caller.label, label]
  by_cases hmethod : site.method = []
  · simp [caller, hmethod, Value.isTruthy]
  · simp [caller, hmethod, Value.isTruthy, Value.display]

end CallSite

/-- The file of a caller, and the method if it is told. -/
def siteOf? (v : Value) : Option CallSite :=
  if textIn v ["filePath", "file"] = [] then none
  else some ⟨textIn v ["filePath", "file"], textIn v ["methodName", "method"]⟩

def fileSite? : Value → Option CallSite
  | .str file => if file = [] then none else some ⟨file, []⟩
  | _ => none

/-- The callers that an entry lists; where it lists none, the files it is called from. -/
def sitesIn (entry : Value) : List CallSite :=
  match (listed entry ["callers", "calledBy"]).filterMap siteOf? with
  | [] => (listed entry ["calledFromFiles"]).filterMap fileSite?
  | site :: sites => site :: sites

abbrev callerKeys : List String := ["filePath", "file", "methodName", "method"]

def IsList (w : Value) : Prop := ∃ items, w = .arr items

/-- A list of callers whose members are strings. -/
def IsCallerList (w : Value) : Prop :=
  ∃ callers, w = .arr callers ∧ ∀ caller ∈ callers, Holds Value.IsString caller callerKeys

instance : DecidablePred IsList
  | .arr items => isTrue ⟨items, rfl⟩
  | .null | .bool _ | .int _ | .real _ | .str _ | .obj _ => isFalse nofun

instance : DecidablePred IsCallerList
  | .arr callers =>
    decidable_of_iff (∀ caller ∈ callers, Holds Value.IsString caller callerKeys)
      ⟨fun h => ⟨callers, rfl, h⟩, fun ⟨_, hw, h⟩ => Value.arr.inj hw ▸ h⟩
  | .null | .bool _ | .int _ | .real _ | .str _ | .obj _ => isFalse nofun

/-- Name and module are strings, and callers and files are in lists. -/
structure EntryTyped (entry : Value) : Prop where
  name : Holds Value.IsString entry procedureKeys
  module : Holds Value.IsString entry ["module"]
  callers : Holds IsCallerList entry ["callers", "calledBy"]
  files : Holds IsList entry ["calledFromFiles"]

instance : DecidablePred EntryTyped := fun entry =>
  decidable_of_iff (Holds Value.IsString entry procedureKeys ∧
      Holds Value.IsString entry ["module"] ∧ Holds IsCallerList entry ["callers", "calledBy"] ∧
        Holds IsList entry ["calledFromFiles"])
    ⟨fun ⟨name, module, callers, files⟩ => ⟨name, module, callers, files⟩,
      fun ⟨name, module, callers, files⟩ => ⟨name, module, callers, files⟩⟩

private theorem callerOf?_eq {caller : Value} (h : Holds Value.IsString caller callerKeys) :
    callerOf? caller = (siteOf? caller).map CallSite.caller := by
  have hfile := firstMember?_eq (h.mono ["filePath", "file"] (by decide))
  have hmethod := firstMember?_eq (h.mono ["methodName", "method"] (by decide))
  rw [siteOf?]
  cases caller with
  | obj members =>
      rw [callerOf?, hfile, hmethod]
      by_cases hempty : textIn (.obj members) ["filePath", "file"] = []
      · simp [hempty]
      · by_cases hnone : textIn (.obj members) ["methodName", "method"] = []
        · simp [hempty, hnone, CallSite.caller]
        · simp [hempty, hnone, CallSite.caller]
  | _ => simp [callerOf?, textIn, firstMember?_of_not_obj]

private theorem callerOfFile?_eq (file : Value) :
    callerOfFile? file = (fileSite? file).map CallSite.caller := by
  cases file with
  | str s => cases s <;> rfl
  | _ => rfl

private theorem callers_listed (h : EntryTyped entry) :
    (listed entry ["callers", "calledBy"]).filterMap callerOf? =
      ((listed entry ["callers", "calledBy"]).filterMap siteOf?).map CallSite.caller := by
  rw [List.map_filterMap]
  refine List.filterMap_congr fun caller hcaller => callerOf?_eq ?_
  rw [listed] at hcaller
  cases hfirst : firstMember? entry ["callers", "calledBy"] with
  | none => simp [hfirst] at hcaller
  | some w =>
      obtain ⟨⟨callers, rfl, hall⟩, -⟩ := h.callers.kind_of_firstMember? hfirst
      rw [hfirst] at hcaller
      exact hall caller hcaller

theorem callersOf_eq_ok (h : EntryTyped entry) :
    callersOf entry = .ok ((sitesIn entry).map CallSite.caller) := by
  have hcallers := elementsOf_eq_ok.mpr
    ⟨h.callers.lists fun w ⟨callers, hw, _⟩ => ⟨callers, hw⟩, rfl⟩
  have hfiles := elementsOf_eq_ok.mpr ⟨h.files.lists fun w hw => hw, rfl⟩
  rw [callersOf, hcallers]
  change (if ((listed entry ["callers", "calledBy"]).filterMap callerOf?).isEmpty then _ else _) = _
  rw [callers_listed h, sitesIn, hfiles]
  cases (listed entry ["callers", "calledBy"]).filterMap siteOf? with
  | nil =>
      refine congrArg Except.ok ?_
      rw [List.map_filterMap]
      exact List.filterMap_congr fun file _ => callerOfFile?_eq file
  | cons site sites => rfl

theorem EntryTyped.usable (h : EntryTyped entry) : EntryUsable entry where
  name := h.name.names
  callers _ := h.callers.lists fun _ ⟨callers, hw, _⟩ => ⟨callers, hw⟩
  files _ _ := h.files.lists fun _ hw => hw

/-! ## Hints -/

def NamesModule (s : RawText) : Prop := s ≠ [] ∧ s ≠ Text.raw Assign.uncategorized

instance : DecidablePred NamesModule := fun _ => inferInstanceAs (Decidable (_ ∧ _))

private theorem usableHint?_of_not_isTruthy {w : Value} (h : w.isTruthy = false) :
    Assign.usableHint? w = none := by
  cases w with
  | str s =>
      obtain rfl : s = [] := by simpa [Value.isTruthy] using h
      rfl
  | _ => simp [Assign.usableHint?, h]

/-- The first of some strings that names a module. -/
def firstModule? (names : List RawText) : Option Value :=
  (names.find? fun s => decide (NamesModule s)).map .str

theorem firstModule?_append (names names' : List RawText) :
    firstModule? (names ++ names') = (firstModule? names <|> firstModule? names') := by
  rw [firstModule?, List.find?_append, firstModule?, firstModule?]
  cases names.find? fun s => decide (NamesModule s) <;> rfl

private theorem usableHint?_string (s : RawText) :
    Assign.usableHint? (.str s) = firstModule? [s] := by
  have hiff : NamesModule s ↔ ¬(s.isEmpty = true ∨ s = Text.raw Assign.uncategorized) := by
    simp [NamesModule]
  rw [Assign.usableHint?, firstModule?, List.find?_singleton]
  by_cases hmodule : NamesModule s
  · rw [if_neg (hiff.mp hmodule), if_pos (decide_eq_true hmodule)]
    rfl
  · rw [if_pos (not_not.mp (mt hiff.mpr hmodule)), if_neg (by simpa using hmodule)]
    rfl

private theorem hintOf?_eq (h : EntryTyped entry) :
    hintOf? entry = firstModule? [textIn entry ["module"]] := by
  have hfirst : firstMember? entry ["module"] =
      (entry.member? "module".toList).filter Value.isTruthy := by
    rw [firstMember?, List.findSome?_singleton]
  rw [hintOf?, textIn, hfirst]
  cases hmember : entry.member? "module".toList with
  | none => rfl
  | some w =>
      cases htruthy : w.isTruthy with
      | false =>
          simp only [Option.filter_some, htruthy, Option.bind_some,
            usableHint?_of_not_isTruthy htruthy]
          rfl
      | true =>
          obtain ⟨s, rfl⟩ := h.module "module" List.mem_cons_self w hmember htruthy
          simp only [Option.filter_some, htruthy, Option.bind_some, usableHint?_string]
          rfl

/-! ## Merging -/

/-- The entries that name a procedure by a key, which is in small letters. -/
def entriesUnder (entries : List Value) (key : RawText) : List Value :=
  entries.filter fun entry =>
    decide (named entry procedureKeys ≠ [] ∧ (named entry procedureKeys).lower = key)

/-- An entry of a cross-reference says what some entries of a document say together. -/
structure Merged (entries : List Value) (merged : Entry) : Prop where
  procedure : (entries.head?.map fun entry => named entry procedureKeys) = some merged.procedure
  callers : merged.callers = (entries.flatMap sitesIn).map CallSite.caller
  hint : merged.hint = firstModule? (entries.map fun entry => textIn entry ["module"])

/-- A cross-reference has one entry for each procedure that is named, and merges what there is
under the name. -/
structure Merges (entries : List Value) (reference : CrossReference) : Prop where
  nodup : (reference.map (·.1)).Nodup
  mem_keys : ∀ key, key ∈ reference.map (·.1) ↔ ∃ entry ∈ entries,
    named entry procedureKeys ≠ [] ∧ (named entry procedureKeys).lower = key
  merged : ∀ key merged, reference.lookup key = some merged →
    Merged (entriesUnder entries key) merged

theorem Merges.lookup_eq_none_iff (h : Merges entries reference) {key : RawText} :
    reference.lookup key = none ↔ entriesUnder entries key = [] := by
  rw [lookup_eq_none_iff_not_mem, h.mem_keys, entriesUnder, List.filter_eq_nil_iff]
  simp

theorem Merged.unique {merged merged' : Entry} (h : Merged entries merged)
    (h' : Merged entries merged') : merged = merged' := by
  have hprocedure := Option.some.inj (h.procedure.symm.trans h'.procedure)
  have hcallers := h.callers.trans h'.callers.symm
  have hhint := h.hint.trans h'.hint.symm
  cases merged
  cases merged'
  simp_all

/-- Only the entries under a name matter for what is found under it. -/
theorem Merges.lookup_eq {entries' : List Value} {reference' : CrossReference}
    (h : Merges entries reference) (h' : Merges entries' reference') {key : RawText}
    (hsame : entriesUnder entries' key = entriesUnder entries key) :
    reference'.lookup key = reference.lookup key := by
  cases hfound : reference.lookup key with
  | none => rw [h'.lookup_eq_none_iff, hsame, ← h.lookup_eq_none_iff, hfound]
  | some merged =>
      cases hfound' : reference'.lookup key with
      | none =>
          rw [h'.lookup_eq_none_iff, hsame, ← h.lookup_eq_none_iff, hfound] at hfound'
          cases hfound'
      | some merged' =>
          have hmerged' := h'.merged key merged' hfound'
          rw [hsame] at hmerged'
          rw [(h.merged key merged hfound).unique hmerged']

private def recordOf (entry : Value) : Entry where
  procedure := named entry procedureKeys
  callers := (sitesIn entry).map CallSite.caller
  hint := hintOf? entry

private theorem merged_recordOf (h : EntryTyped entry) : Merged [entry] (recordOf entry) := by
  refine ⟨rfl, by simp [recordOf], hintOf?_eq h⟩

private theorem Merged.merge {merged : Entry} (hmerged : Merged entries merged)
    (h : EntryTyped entry) : Merged (entries ++ [entry]) (merged.merge (recordOf entry)) := by
  refine ⟨?_, ?_, ?_⟩
  · rw [List.head?_append, Option.map_or, hmerged.procedure]
    rfl
  · change merged.callers ++ (sitesIn entry).map CallSite.caller = _
    rw [hmerged.callers, List.flatMap_append, List.map_append]
    simp
  · change (merged.hint <|> hintOf? entry) = _
    rw [hmerged.hint, hintOf?_eq h, List.map_append, firstModule?_append]
    rfl

/-! ### Adding an entry -/

private theorem keys_addEntry (key : RawText) (e : Entry) (reference : CrossReference) :
    (addEntry key e reference).map (·.1) =
      if key ∈ reference.map (·.1) then reference.map (·.1) else reference.map (·.1) ++ [key] := by
  induction reference with
  | nil => rfl
  | cons first rest ih =>
      obtain ⟨k, e'⟩ := first
      rw [addEntry]
      by_cases hk : k = key
      · simp [hk]
      · rw [if_neg hk, List.map_cons, ih, List.map_cons]
        by_cases hmem : key ∈ rest.map (·.1)
        · rw [if_pos hmem, if_pos (List.mem_cons_of_mem _ hmem)]
        · rw [if_neg hmem, if_neg (by simp [hmem, Ne.symm hk]), List.cons_append]

private theorem lookup_addEntry (key : RawText) (e : Entry) (reference : CrossReference)
    (k : RawText) : (addEntry key e reference).lookup k =
      if k = key then some ((reference.lookup key).elim e fun first => first.merge e)
      else reference.lookup k := by
  induction reference with
  | nil =>
      rw [addEntry, List.lookup_cons]
      by_cases hk : k = key
      · simp [hk]
      · simp [hk, beq_eq_false_iff_ne.mpr hk]
  | cons first rest ih =>
      obtain ⟨k', e'⟩ := first
      rw [addEntry]
      by_cases hk' : k' = key
      · subst hk'
        by_cases hk : k = k'
        · simp [hk]
        · simp [List.lookup_cons, hk, beq_eq_false_iff_ne.mpr hk]
      · rw [if_neg hk', List.lookup_cons, List.lookup_cons, List.lookup_cons, ih,
          beq_eq_false_iff_ne.mpr (Ne.symm hk')]
        by_cases hk : k = k'
        · simp [hk, hk']
        · simp [beq_eq_false_iff_ne.mpr hk]

theorem mem_keys_addEntry {key : RawText} {e : Entry} {k : RawText} :
    k ∈ (addEntry key e reference).map (·.1) ↔ k ∈ reference.map (·.1) ∨ key = k := by
  rw [keys_addEntry]
  split_ifs with hmem
  · exact ⟨.inl, fun hk => hk.elim id fun hk => hk ▸ hmem⟩
  · rw [List.mem_append, List.mem_singleton, eq_comm (a := k)]

private theorem entriesUnder_append_of_ne {key : RawText}
    (h : ¬(named entry procedureKeys ≠ [] ∧ (named entry procedureKeys).lower = key)) :
    entriesUnder (entries ++ [entry]) key = entriesUnder entries key := by
  rw [entriesUnder, List.filter_append, List.filter_singleton, decide_eq_false h]
  exact List.append_nil _

private theorem entriesUnder_append_self (h : named entry procedureKeys ≠ []) :
    entriesUnder (entries ++ [entry]) (named entry procedureKeys).lower =
      entriesUnder entries (named entry procedureKeys).lower ++ [entry] := by
  rw [entriesUnder, List.filter_append, List.filter_singleton, decide_eq_true ⟨h, rfl⟩]
  rfl

private theorem Merges.skip (h : Merges entries reference)
    (hname : named entry procedureKeys = []) : Merges (entries ++ [entry]) reference where
  nodup := h.nodup
  mem_keys key := by simp [h.mem_keys key, hname]
  merged key merged hmerged := by
    rw [entriesUnder_append_of_ne fun hkey => hkey.1 hname]
    exact h.merged key merged hmerged

private theorem Merges.add (h : Merges entries reference) (hentry : EntryTyped entry)
    (hname : named entry procedureKeys ≠ []) :
    Merges (entries ++ [entry])
      (addEntry (named entry procedureKeys).lower (recordOf entry) reference) where
  nodup := by
    rw [keys_addEntry]
    split_ifs with hmem
    · exact h.nodup
    · exact h.nodup.append (List.nodup_singleton _) (List.disjoint_singleton.mpr hmem)
  mem_keys key := by
    rw [mem_keys_addEntry, h.mem_keys]
    simp [hname, or_and_right, exists_or]
  merged key merged hmerged := by
    rw [lookup_addEntry] at hmerged
    -- Under its own name the entry comes after those seen, if there are any; other names keep what
    -- they had.
    by_cases hkey : key = (named entry procedureKeys).lower
    · subst hkey
      rw [if_pos rfl] at hmerged
      obtain rfl := Option.some.inj hmerged
      rw [entriesUnder_append_self hname]
      cases hfirst : reference.lookup (named entry procedureKeys).lower with
      | none =>
          rw [h.lookup_eq_none_iff.mp hfirst]
          exact merged_recordOf hentry
      | some first => exact (h.merged _ _ hfirst).merge hentry
    · rw [if_neg hkey] at hmerged
      rw [entriesUnder_append_of_ne fun h' => hkey h'.2.symm]
      exact h.merged key merged hmerged

theorem exists_readEntries {seen : List Value} (h : Merges seen reference)
    (hentries : ∀ entry ∈ entries, EntryTyped entry) :
    ∃ read, readEntries reference entries = .ok read ∧ Merges (seen ++ entries) read := by
  -- What is seen grows by one entry a step, and the reference read so far merges it.
  induction entries generalizing seen reference with
  | nil => exact ⟨reference, rfl, by rwa [List.append_nil]⟩
  | cons entry entries ih =>
      obtain ⟨hentry, hentries⟩ := List.forall_mem_cons.mp hentries
      rw [readEntries_cons, List.append_cons seen entry entries]
      simp only [Outcome.bind_eq_ok, bareNameOf_eq_ok]
      by_cases hname : named entry procedureKeys = []
      · obtain ⟨read, hread, hmerges⟩ := ih (h.skip hname) hentries
        refine ⟨read, ⟨_, ⟨hentry.name.names, rfl⟩, ?_⟩, hmerges⟩
        rwa [if_pos (List.isEmpty_iff.mpr hname)]
      · obtain ⟨read, hread, hmerges⟩ := ih (h.add hentry hname) hentries
        refine ⟨read, ⟨_, ⟨hentry.name.names, rfl⟩, ?_⟩, hmerges⟩
        rw [if_neg (mt List.isEmpty_iff.mp hname)]
        exact Outcome.bind_eq_ok.mpr ⟨_, callersOf_eq_ok hentry, hread⟩

/-! ## Loading -/

/-- A document whose entries are in a list, each with its parts of the right kinds. -/
structure ReferenceTyped (v : Value) : Prop where
  not_null : v ≠ .null
  entries : Holds IsList v ["crossReference", "procedures"]
  each : ∀ entry ∈ procedureEntries v, EntryTyped entry

theorem exists_loadCrossReference {folder : Folder} {path : Text}
    (hread : folder.readValue path = .ok v) (hv : ReferenceTyped v) :
    ∃ reference, (loadCrossReference folder path).1 = .ok (some reference) ∧
      Merges (procedureEntries v) reference := by
  have hempty : Merges [] [] := ⟨.nil, by simp, by simp⟩
  obtain ⟨reference, hreference, hmerges⟩ := exists_readEntries hempty hv.each
  refine ⟨reference, ?_, hmerges⟩
  have hentries : entriesOf v = .ok (procedureEntries v) :=
    entriesOf_eq_ok.mpr ⟨hv.entries.lists fun w hw => hw, rfl⟩
  rw [loadCrossReference_fst hread hv.not_null]
  exact Outcome.bind_eq_ok.mpr ⟨_, hentries, Outcome.bind_eq_ok.mpr ⟨_, hreference, rfl⟩⟩

end ProcCatalog.Collaborator
