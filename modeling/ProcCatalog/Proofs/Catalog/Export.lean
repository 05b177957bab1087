import ProcCatalog.Catalog.Export
import ProcCatalog.Proofs.Catalog.Document
import ProcCatalog.Proofs.Catalog.Grouping
import ProcCatalog.Proofs.Storage.Documents
import ProcCatalog.Proofs.Value.Strings
import Mathlib

/-!
# What an export keeps

An export that succeeds has written the document of every module, but the file of a module is named
after its slug, and codes that differ may share one. The bodies of all modules are kept exactly when
no two slugs are the same.
-/

namespace ProcCatalog.Catalog

open Storage

variable {directory : Text} {folder after : Folder} {paths : List Text} {c : Catalog}

/-! ## Names of files -/

def ending : Text := ".json".toList

def bodiesPath (directory name : Text) : Text :=
  joinPath (joinPath directory bodiesName) (name ++ ending)

def IsSlug (s : Text) : Prop := ∀ c ∈ s, isSlugChar c = true

private theorem isSlug_underscored (inRun : Bool) (s : RawText) : IsSlug (underscored inRun s) := by
  have hunderscore : isSlugChar '_' = true := rfl
  induction s generalizing inRun with
  | nil => exact fun c hc => nomatch hc
  | cons c s ih =>
      rw [underscored]
      cases hc : c.char?.filter isSlugChar with
      | some d =>
          have hd : isSlugChar d = true := (Option.filter_eq_some_iff.mp hc).2
          exact List.forall_mem_cons.mpr ⟨hd, ih false⟩
      | none =>
          dsimp only
          split
          · exact ih true
          · exact List.forall_mem_cons.mpr ⟨hunderscore, ih true⟩

private theorem mem_of_mem_trimWith {drop : Char → Bool} {s : Text} {c : Char}
    (h : c ∈ Text.trimWith drop s) : c ∈ s := by
  rw [Text.trimWith, Text.trimEndWith, List.mem_reverse] at h
  have h := List.mem_reverse.mp ((List.dropWhile_suffix drop).subset h)
  exact (List.dropWhile_suffix drop).subset h

theorem isSlug_slug (code : RawText) : IsSlug (slug code) := by
  have hfallback : "uncategorized".toList.all isSlugChar = true := rfl
  rw [slug]
  split
  · exact List.all_eq_true.mp hfallback
  · exact fun c hc => isSlug_underscored false code c (mem_of_mem_trimWith hc)

theorem isSlug_of_slugOf {code : Value} {name : Text} (h : slugOf code = .ok name) :
    IsSlug name := by
  cases code with
  | str s => exact Except.ok.inj h ▸ isSlug_slug s
  | _ => cases h

private theorem five_le_length_append_ending (s : Text) : 5 ≤ (s ++ ending).length := by
  have hlength : ending.length = 5 := rfl
  rw [List.length_append]
  omega

theorem IsSlug.fileName {name : Text} (h : IsSlug name) : FileName (name ++ ending) where
  noSlash := by
    have hending : '/' ∉ ending := by decide
    rw [List.mem_append, not_or]
    exact ⟨fun hslash => absurd (h '/' hslash) (by decide), hending⟩
  ne_nil hname := by simpa [hname] using five_le_length_append_ending name
  ne_dot hname := by simpa [hname] using five_le_length_append_ending name
  ne_dots hname := by simpa [hname] using five_le_length_append_ending name

theorem bodiesPath_inj {name name' : Text} :
    bodiesPath directory name = bodiesPath directory name' ↔ name = name' := by
  rw [bodiesPath, bodiesPath, joinPath_inj, List.append_cancel_right_eq]

theorem fileName_catalogName : FileName catalogName :=
  ⟨by decide, by decide, by decide, by decide⟩

theorem fileName_bodiesName : FileName bodiesName :=
  ⟨by decide, by decide, by decide, by decide⟩

theorem catalogPath_ne_bodiesPath (directory name : Text) :
    joinPath directory catalogName ≠ bodiesPath directory name := by
  intro h
  rw [bodiesPath, joinPath_joinPath directory fileName_bodiesName, joinPath_inj] at h
  have hcatalog : catalogName.take 2 = ['s', 't'] := rfl
  have hbodies : (bodiesName ++ '/' :: (name ++ ending)).take 2 = ['s', 'p'] := rfl
  rw [h, hbodies] at hcatalog
  simp at hcatalog

/-! ## Writing the bodies -/

/-- A file can be given to the module, whose code is a text. -/
def HasPlace (directory : Text) (folder : Folder) (l : Listing) : Prop :=
  ∃ name, slugOf l.code = .ok name ∧ folder.Writable (bodiesPath directory name)

private theorem hasPlace_congr {other : Folder} (h : other.directories = folder.directories)
    (l : Listing) : HasPlace directory other l ↔ HasPlace directory folder l := by
  simp only [HasPlace, Folder.writable_congr h]

theorem writeBodies_cons {written : List Text} {l : Listing} {ls : List Listing} :
    writeBodies (joinPath directory bodiesName) folder written (l :: ls) = (after, .ok paths) ↔
      ∃ name next, slugOf l.code = .ok name ∧
        folder.Puts (bodiesPath directory name) l.bodies next ∧
        writeBodies (joinPath directory bodiesName) next (bodiesPath directory name :: written) ls =
          (after, .ok paths) := by
  rw [writeBodies]
  cases hname : slugOf l.code with
  | error fault => simp
  | ok name =>
      have hfile := (isSlug_of_slugOf hname).fileName
      have hpath : joinPath (joinPath directory bodiesName) (name ++ ".json".toList) =
          bodiesPath directory name := rfl
      dsimp only
      rw [hpath, bodiesPath]
      constructor
      · intro h
        split at h
        · cases h
        · rename_i next hnext
          exact ⟨name, next, rfl, (Folder.writeChunks_joinPath hfile).mp hnext, h⟩
      · rintro ⟨_, next, hname', hputs, h⟩
        obtain rfl := Except.ok.inj hname'
        rw [(Folder.writeChunks_joinPath hfile).mpr hputs]
        exact h

theorem exists_writeBodies_iff {written : List Text} {ls : List Listing} :
    (∃ after paths, writeBodies (joinPath directory bodiesName) folder written ls =
      (after, .ok paths)) ↔ ∀ l ∈ ls, HasPlace directory folder l ∧ l.bodies.isWhole = true := by
  induction ls generalizing folder written with
  | nil => simp [writeBodies]
  | cons l ls ih =>
      simp only [writeBodies_cons, List.forall_mem_cons]
      constructor
      · rintro ⟨after, paths, name, next, hname, hputs, h⟩
        obtain ⟨hwritable, hwhole⟩ := Folder.exists_puts_iff.mp ⟨next, hputs⟩
        refine ⟨⟨⟨name, hname, hwritable⟩, hwhole⟩, fun m hm => ?_⟩
        rw [← hasPlace_congr hputs.directories m]
        exact ih.mp ⟨after, paths, h⟩ m hm
      · rintro ⟨⟨⟨name, hname, hwritable⟩, hwhole⟩, hls⟩
        obtain ⟨next, hputs⟩ := Folder.exists_puts_iff.mpr ⟨hwritable, hwhole⟩
        obtain ⟨after, paths, h⟩ := ih.mpr fun m hm => by
          rw [hasPlace_congr hputs.directories m]
          exact hls m hm
        exact ⟨after, paths, name, next, hname, hputs, h⟩

/-- What was written for some modules whose slugs are told. A file keeps the bodies of the last
module that has its slug, and the files of other slugs are left as they were. -/
structure Wrote (directory : Text) (folder after : Folder) (ls : List Listing)
    (names : List Text) : Prop where
  slugs : ls.map (fun l => slugOf l.code) = names.map .ok
  last : ∀ name ∈ names, ∃ l ∈ ls, slugOf l.code = .ok name ∧
    after.Holds (bodiesPath directory name) l.bodies
  others : ∀ name v, name ∉ names → IsSlug name → folder.Holds (bodiesPath directory name) v →
    after.Holds (bodiesPath directory name) v

private theorem Wrote.cons {next : Folder} {l : Listing} {ls : List Listing} {name : Text}
    {names : List Text} (h : Wrote directory next after ls names) (hname : slugOf l.code = .ok name)
    (hputs : folder.Puts (bodiesPath directory name) l.bodies next) :
    Wrote directory folder after (l :: ls) (name :: names) := by
  have hslug := isSlug_of_slugOf hname
  refine ⟨by simp [hname, h.slugs], List.forall_mem_cons.mpr ⟨?_, fun other hother => ?_⟩, ?_⟩
  · by_cases hmem : name ∈ names
    · obtain ⟨m, hm, hheld⟩ := h.last name hmem
      exact ⟨m, List.mem_cons_of_mem _ hm, hheld⟩
    · exact ⟨l, List.mem_cons_self, hname, h.others name l.bodies hmem hslug hputs.holds⟩
  · obtain ⟨m, hm, hheld⟩ := h.last other hother
    exact ⟨m, List.mem_cons_of_mem _ hm, hheld⟩
  · intro other v hother hslug' hv
    obtain ⟨hne, hother⟩ := not_or.mp (mt List.mem_cons.mpr hother)
    have hne : other ++ ending ≠ name ++ ending := by
      simpa [List.append_cancel_right_eq] using hne
    exact h.others other v hother hslug'
      (hputs.holds_other hslug.fileName hslug'.fileName hne hv)

theorem exists_wrote {written : List Text} {ls : List Listing}
    (h : writeBodies (joinPath directory bodiesName) folder written ls = (after, .ok paths)) :
    ∃ names, Wrote directory folder after ls names ∧
      paths = written.reverse ++ names.map (bodiesPath directory) := by
  induction ls generalizing folder written with
  | nil =>
      obtain ⟨rfl, hpaths⟩ := Prod.mk.inj h
      refine ⟨[], ⟨rfl, by simp, fun _ _ _ _ hv => hv⟩, ?_⟩
      simpa using (Except.ok.inj hpaths).symm
  | cons l ls ih =>
      obtain ⟨name, next, hname, hputs, h⟩ := writeBodies_cons.mp h
      obtain ⟨names, hwrote, hpaths⟩ := ih h
      exact ⟨name :: names, hwrote.cons hname hputs, by simpa using hpaths⟩

/-! ## The whole export -/

/-- The directories can be made, a file can stand at every path, and nothing in the catalog holds
half of a surrogate pair. -/
def Exportable (c : Catalog) (directory : Text) (folder : Folder) : Prop :=
  ∃ made, folder.makeDirectories (joinPath directory bodiesName) = (made, .ok ()) ∧
    made.Writable (joinPath directory catalogName) ∧
      ∀ l ∈ c.listings, HasPlace directory made l ∧ l.isWhole = true

private theorem exportTo_eq_ok :
    exportTo c directory folder = (after, .ok paths) ↔
      ∃ made next, folder.makeDirectories (joinPath directory bodiesName) = (made, .ok ()) ∧
        made.Puts (joinPath directory catalogName) c.document next ∧
        writeBodies (joinPath directory bodiesName) next [joinPath directory catalogName]
          c.listings = (after, .ok paths) := by
  rw [exportTo]
  dsimp only
  constructor
  · intro h
    split at h
    · cases h
    · rename_i made hmade
      split at h
      · cases h
      · rename_i next hnext
        exact ⟨made, next, hmade, (Folder.writeChunks_joinPath fileName_catalogName).mp hnext, h⟩
  · rintro ⟨made, next, hmade, hputs, h⟩
    rw [hmade]
    dsimp only
    rw [(Folder.writeChunks_joinPath fileName_catalogName).mpr hputs]
    exact h

theorem exists_exportTo_iff :
    (∃ after paths, exportTo c directory folder = (after, .ok paths)) ↔
      Exportable c directory folder := by
  simp only [exportTo_eq_ok]
  constructor
  · rintro ⟨after, paths, made, next, hmade, hputs, h⟩
    obtain ⟨hwritable, hwhole⟩ := Folder.exists_puts_iff.mp ⟨next, hputs⟩
    rw [isWhole_document, List.all_eq_true] at hwhole
    refine ⟨made, hmade, hwritable, fun l hl => ⟨?_, hwhole l hl⟩⟩
    rw [← hasPlace_congr hputs.directories]
    exact (exists_writeBodies_iff.mp ⟨after, paths, h⟩ l hl).1
  · rintro ⟨made, hmade, hwritable, hlistings⟩
    have hwhole : c.document.isWhole = true := by
      rw [isWhole_document, List.all_eq_true]
      exact fun l hl => (hlistings l hl).2
    obtain ⟨next, hputs⟩ := Folder.exists_puts_iff.mpr ⟨hwritable, hwhole⟩
    obtain ⟨after, paths, h⟩ := exists_writeBodies_iff.mpr fun l hl =>
      ⟨(hasPlace_congr hputs.directories l).mpr (hlistings l hl).1,
        Listing.isWhole_bodies (hlistings l hl).2⟩
    exact ⟨after, paths, made, next, hmade, hputs, h⟩

/-! ## Keeping every body -/

variable {setting : Setting} {analysis : Analysis}

def DistinctSlugs (c : Catalog) : Prop := (c.listings.map fun l => slugOf l.code).Nodup

def HasBody (c : Catalog) (after : Folder) (path : Text) (p : Procedure) : Prop :=
  ∃ l ∈ c.listings, p ∈ l.procedures ∧ after.Holds path l.bodies

/-- No body of a catalog is lost in what an export left. The path of the catalog document comes
first, and those of the bodies follow. -/
structure Keeps (c : Catalog) (after : Folder) (paths : List Text) : Prop where
  paths_nodup : paths.Nodup
  listing : ∀ l ∈ c.listings, ∃ path ∈ paths.tail, after.Holds path l.bodies
  procedure : ∀ p ∈ c.procedures, ∃! path, path ∈ paths.tail ∧ c.HasBody after path p

private theorem exists_str_of_slugOf {code : Value} {name : Text} (h : slugOf code = .ok name) :
    ∃ s, code = .str s := by
  cases code with
  | str s => exact ⟨s, rfl⟩
  | _ => cases h

private theorem code_eq_of_holds {path name name' : Text} {l m : Listing}
    (hl : slugOf l.code = .ok name) (hm : slugOf m.code = .ok name')
    (hholds : after.Holds path l.bodies) (hholds' : after.Holds path m.bodies) :
    l.code = m.code := by
  obtain ⟨s, hs⟩ := exists_str_of_slugOf hl
  obtain ⟨s', hs'⟩ := exists_str_of_slugOf hm
  obtain ⟨t, ht, hread⟩ := hholds
  obtain ⟨t', ht', hread'⟩ := hholds'
  obtain rfl : t = t' := encodeUtf8_inj.mp (Except.ok.inj (hread.symm.trans hread'))
  rw [Listing.bodies, hs] at ht
  rw [Listing.bodies, hs'] at ht'
  rw [hs, hs', Value.first_eq_of_write_eq ht ht']

private theorem code_eq_of_mem {name name' : Text} {l m : Listing} {p : Procedure}
    (hbuild : build setting analysis = .ok c) (hl : slugOf l.code = .ok name)
    (hm : slugOf m.code = .ok name') (hlc : l ∈ c.listings) (hmc : m ∈ c.listings)
    (hpl : p ∈ l.procedures) (hpm : p ∈ m.procedures) : l.code = m.code := by
  have hsame : l.code.sameKey m.code = true :=
    Value.sameKey_trans ((partitioned_build hbuild).sameKey l hlc p hpl)
      (Value.sameKey_symm ((partitioned_build hbuild).sameKey m hmc p hpm))
  obtain ⟨s, hs⟩ := exists_str_of_slugOf hl
  obtain ⟨t, ht⟩ := exists_str_of_slugOf hm
  rw [hs, ht] at hsame ⊢
  rw [Value.sameKey_str.mp hsame]

theorem exists_wrote_of_exportTo (h : exportTo c directory folder = (after, .ok paths)) :
    ∃ next names, Wrote directory next after c.listings names ∧
      paths = joinPath directory catalogName :: names.map (bodiesPath directory) := by
  obtain ⟨made, next, -, -, hwritten⟩ := exportTo_eq_ok.mp h
  obtain ⟨names, hwrote, hpaths⟩ := exists_wrote hwritten
  exact ⟨next, names, hwrote, hpaths⟩

namespace Wrote

variable {next : Folder} {ls : List Listing} {names : List Text}

theorem exists_name (h : Wrote directory next after ls names) {l : Listing} (hl : l ∈ ls) :
    ∃ name ∈ names, slugOf l.code = .ok name := by
  have hmem : slugOf l.code ∈ names.map .ok := h.slugs ▸ List.mem_map_of_mem hl
  obtain ⟨name, hmem, hname⟩ := List.mem_map.mp hmem
  exact ⟨name, hmem, hname.symm⟩

theorem distinctSlugs_iff (h : Wrote directory next after c.listings names) :
    DistinctSlugs c ↔ names.Nodup := by
  rw [DistinctSlugs, h.slugs, List.nodup_map_iff fun _ _ => Except.ok.inj]

/-- Where slugs differ, the last module of a slug is the only one. -/
theorem holds (h : Wrote directory next after c.listings names) (hslugs : DistinctSlugs c)
    {l : Listing} (hl : l ∈ c.listings) {name : Text} (hn : name ∈ names)
    (hname : slugOf l.code = .ok name) : after.Holds (bodiesPath directory name) l.bodies := by
  obtain ⟨m, hm, hname', hheld⟩ := h.last name hn
  obtain rfl := List.inj_on_of_nodup_map hslugs hl hm (hname.trans hname'.symm)
  exact hheld

end Wrote

private theorem keeps_of_distinctSlugs (hbuild : build setting analysis = .ok c)
    (h : exportTo c directory folder = (after, .ok paths)) (hslugs : DistinctSlugs c) :
    Keeps c after paths := by
  obtain ⟨next, names, hwrote, rfl⟩ := exists_wrote_of_exportTo h
  refine ⟨?_, fun l hl => ?_, fun p hp => ?_⟩
  · refine List.nodup_cons.mpr ⟨fun hmem => ?_, ?_⟩
    · obtain ⟨name, -, hpath⟩ := List.mem_map.mp hmem
      exact catalogPath_ne_bodiesPath directory name hpath.symm
    · exact (hwrote.distinctSlugs_iff.mp hslugs).map fun _ _ => bodiesPath_inj.mp
  · obtain ⟨name, hmem, hname⟩ := hwrote.exists_name hl
    exact ⟨_, List.mem_map_of_mem hmem, hwrote.holds hslugs hl hmem hname⟩
  · obtain ⟨l, hl, hpl⟩ := List.mem_flatMap.mp hp
    obtain ⟨name, hmem, hname⟩ := hwrote.exists_name hl
    refine ⟨bodiesPath directory name,
      ⟨List.mem_map_of_mem hmem, l, hl, hpl, hwrote.holds hslugs hl hmem hname⟩, ?_⟩
    rintro path ⟨hpath, l', hl', hpl', hholds⟩
    obtain ⟨other, hother, rfl⟩ := List.mem_map.mp hpath
    obtain ⟨_, -, hname'⟩ := hwrote.exists_name hl'
    -- The file was written for a module `m`, whose bodies are those of `l'` and list the procedure.
    obtain ⟨m, hm, hm', hheld⟩ := hwrote.last other hother
    have hcode : m.code = l'.code := code_eq_of_holds hm' hname' hheld hholds
    have hcode' : l'.code = l.code := code_eq_of_mem hbuild hname' hname hl' hl hpl' hpl
    rw [hcode, hcode', hname] at hm'
    rw [Except.ok.inj hm']

/-- Where every module still has its bodies in a file, no two slugs are the same. -/
private theorem distinctSlugs_of_holds (hbuild : build setting analysis = .ok c)
    (h : exportTo c directory folder = (after, .ok paths))
    (hholds : ∀ l ∈ c.listings, ∃ path ∈ paths.tail, after.Holds path l.bodies) :
    DistinctSlugs c := by
  obtain ⟨next, names, hwrote, rfl⟩ := exists_wrote_of_exportTo h
  have hown {l : Listing} (hl : l ∈ c.listings) :
      ∃ name, slugOf l.code = .ok name ∧ after.Holds (bodiesPath directory name) l.bodies := by
    obtain ⟨name, -, hname⟩ := hwrote.exists_name hl
    obtain ⟨path, hpath, hheld⟩ := hholds l hl
    obtain ⟨other, hother, rfl⟩ := List.mem_map.mp hpath
    obtain ⟨m, -, hother, hheld'⟩ := hwrote.last other hother
    have hcode : l.code = m.code := code_eq_of_holds hname hother hheld hheld'
    exact ⟨other, hcode ▸ hother, hheld⟩
  have hdistinct := List.pairwise_map.mp (partitioned_build hbuild).distinct
  refine List.pairwise_map.mpr (hdistinct.imp_of_mem fun {l m} hl hm hne hslug => ?_)
  obtain ⟨name, hname, hheld⟩ := hown hl
  obtain ⟨name', hname', hheld'⟩ := hown hm
  obtain rfl : name = name' := Except.ok.inj (hname.symm.trans (hslug.trans hname'))
  obtain ⟨s, hs⟩ := exists_str_of_slugOf hname
  rw [← code_eq_of_holds hname hname' hheld hheld', hs, Value.sameKey_self rfl] at hne
  cases hne

/-- The bodies of a catalog are kept exactly when it can be exported and no two of its modules have
the same slug. -/
theorem exists_keeps_iff (hbuild : build setting analysis = .ok c) :
    (∃ after paths, exportTo c directory folder = (after, .ok paths) ∧ Keeps c after paths) ↔
      Exportable c directory folder ∧ DistinctSlugs c := by
  rw [← exists_exportTo_iff]
  constructor
  · rintro ⟨after, paths, h, hkeeps⟩
    exact ⟨⟨after, paths, h⟩, distinctSlugs_of_holds hbuild h hkeeps.listing⟩
  · rintro ⟨⟨after, paths, h⟩, hslugs⟩
    exact ⟨after, paths, h, keeps_of_distinctSlugs hbuild h hslugs⟩

/-! ## Modules of two schemas -/

def schemaRules (first second : String) : Assign.Rules :=
  { Assign.Rules.standard with schemaModules := .ofTexts [("a", first), ("b", second)] }

def schemaScript : Text :=
  "CREATE PROCEDURE a.P AS\nSELECT 1\nGO\nCREATE PROCEDURE b.Q AS\nSELECT 2\nGO\n".toList

def schemaAnalysis (first second : String) : Analysis :=
  Analyzer.analyze { rules := schemaRules first second } (Script.Splitter.split {} schemaScript).1

/-- The catalog of a script with a procedure in each of two schemas that are modules. -/
def schemaCatalog (first second : String) : Outcome Catalog :=
  build { rules := schemaRules first second } (schemaAnalysis first second)

/-- The folder of an export before its files are written. -/
def emptyExport : Folder := { directories := [["out".toList], ["out".toList, bodiesName]] }

private theorem exists_exportTo_of_slugs {first second : String} {names : List Text}
    (hslugs : ((schemaCatalog first second).toOption.map fun c =>
      c.listings.map fun l => (slugOf l.code, l.isWhole)) =
        some (names.map fun name => (.ok name, true)))
    (hnames : ∀ name ∈ names, emptyExport.Writable (bodiesPath "out".toList name)) :
    ∃ c after paths, schemaCatalog first second = .ok c ∧
      c.listings.map (fun l => slugOf l.code) = names.map .ok ∧
        exportTo c "out".toList {} = (after, .ok paths) := by
  have hmade : ({} : Folder).makeDirectories (joinPath "out".toList bodiesName) =
      (emptyExport, .ok ()) := by decide +kernel
  have hcatalog : emptyExport.Writable (joinPath "out".toList catalogName) := by decide +kernel
  cases hc : schemaCatalog first second with
  | error fault => simp [hc, Except.toOption] at hslugs
  | ok c =>
      have hslugs : c.listings.map (fun l => (slugOf l.code, l.isWhole)) =
          names.map fun name => (.ok name, true) := by
        simpa [hc, Except.toOption] using hslugs
      have hexportable : Exportable c "out".toList {} := by
        refine ⟨emptyExport, hmade, hcatalog, fun l hl => ?_⟩
        have hmem : (slugOf l.code, l.isWhole) ∈ names.map fun name => (.ok name, true) :=
          hslugs ▸ List.mem_map_of_mem hl
        obtain ⟨name, hname, hpair⟩ := List.mem_map.mp hmem
        obtain ⟨hslug, hwhole⟩ := Prod.mk.inj hpair
        exact ⟨⟨name, hslug.symm, hnames name hname⟩, hwhole.symm⟩
      obtain ⟨after, paths, h⟩ := exists_exportTo_iff.mpr hexportable
      have hfirst := congrArg (List.map Prod.fst) hslugs
      rw [List.map_map, List.map_map] at hfirst
      exact ⟨c, after, paths, rfl, hfirst, h⟩

theorem exists_keeps_of_plain_codes : ∃ c, schemaCatalog "x" "y" = .ok c ∧
    ∃ after paths, exportTo c "out".toList {} = (after, .ok paths) ∧ Keeps c after paths := by
  have hslugs : ((schemaCatalog "x" "y").toOption.map fun c =>
      c.listings.map fun l => (slugOf l.code, l.isWhole)) =
        some ([['x'], ['y']].map fun name => (.ok name, true)) := by decide +kernel
  obtain ⟨c, after, paths, hc, hnames, hexport⟩ :=
    exists_exportTo_of_slugs hslugs (by decide +kernel)
  have hdistinct : DistinctSlugs c := by
    rw [DistinctSlugs, hnames]
    decide
  exact ⟨c, hc, (exists_keeps_iff hc).mpr
    ⟨exists_exportTo_iff.mp ⟨after, paths, hexport⟩, hdistinct⟩⟩

/-- Of two codes that differ in a blank and an underscore, one loses its bodies: two paths are the
same, and some module has its bodies in no file. -/
theorem exists_lost_of_clashing_codes : ∃ c after paths, schemaCatalog "x y" "x_y" = .ok c ∧
    exportTo c "out".toList {} = (after, .ok paths) ∧ ¬paths.Nodup ∧
      ∃ l ∈ c.listings, ∀ path ∈ paths.tail, ¬after.Holds path l.bodies := by
  have hslugs : ((schemaCatalog "x y" "x_y").toOption.map fun c =>
      c.listings.map fun l => (slugOf l.code, l.isWhole)) =
        some ([['x', '_', 'y'], ['x', '_', 'y']].map fun name => (.ok name, true)) := by
    decide +kernel
  obtain ⟨c, after, paths, hc, hnames, hexport⟩ :=
    exists_exportTo_of_slugs hslugs (by decide +kernel)
  have hclash : ¬DistinctSlugs c := by
    rw [DistinctSlugs, hnames]
    decide
  refine ⟨c, after, paths, hc, hexport, fun hnodup => hclash ?_, ?_⟩
  · obtain ⟨next, names, hwrote, rfl⟩ := exists_wrote_of_exportTo hexport
    exact hwrote.distinctSlugs_iff.mpr ((List.nodup_cons.mp hnodup).2.of_map _)
  · by_contra hkept
    push Not at hkept
    exact hclash (distinctSlugs_of_holds hc hexport hkept)

end ProcCatalog.Catalog
