import ProcCatalog.Cataloger
import ProcCatalog.Proofs.Body.Returned
import ProcCatalog.Proofs.Outcome
import ProcCatalog.Proofs.Script.Returned
import ProcCatalog.Proofs.Signature.ReturnedHeader
import ProcCatalog.Proofs.Text.Order

/-!
# Catalogs of scripts with carriage returns

A script whose lines end with carriage returns and line feeds has the catalog of the script with
line feeds alone. The returns are left in the bodies of its procedures and in the defaults of their
parameters, where nothing of what a catalog is made of looks.
-/

namespace ProcCatalog

open Text (Returned)

/-! ## Leaving carriage returns out -/

def Signature.Parameter.withoutReturns (p : Signature.Parameter) : Signature.Parameter :=
  { p with default := p.default.map Text.withoutReturns }

def Procedure.withoutReturns (p : Procedure) : Procedure :=
  { p with
    parameters := p.parameters.map (·.withoutReturns)
    body := Text.withoutReturns p.body }

def Listing.withoutReturns (l : Listing) : Listing :=
  { l with procedures := l.procedures.map (·.withoutReturns) }

def Catalog.withoutReturns (c : Catalog) : Catalog :=
  { c with listings := c.listings.map (·.withoutReturns) }

def Analysis.withoutReturns (a : Analysis) : Analysis :=
  { a with procedures := a.procedures.map (·.withoutReturns) }

def Run.withoutReturns (run : Run) : Run :=
  { run with result := run.result.map (·.withoutReturns) }

private theorem map_eq_of_forall₂ {α β : Type} {R : α → β → Prop} {f : β → α} {xs : List α}
    {xs' : List β} (hf : ∀ x x', R x x' → f x' = x) (h : List.Forall₂ R xs xs') :
    xs'.map f = xs := by
  induction h with
  | nil => rfl
  | cons hx _ ih => rw [List.map_cons, hf _ _ hx, ih]

theorem Signature.Parameter.Alike.withoutReturns_eq {p p' : Signature.Parameter}
    (h : p.Alike p') : p'.withoutReturns = p := by
  have hdefault : p'.default.map Text.withoutReturns = p.default := by
    have hrel := h.default
    generalize p.default = x at hrel
    generalize p'.default = x' at hrel
    cases hrel with
    | none => rfl
    | some ht => rw [Option.map_some, ht.withoutReturns]
  rw [withoutReturns, hdefault, h.name, h.dataType, h.direction, h.readonly]

/-! ## Analysis -/

namespace Analyzer

variable (a : Analyzer)

theorem classify_of_alike {d d' : Signature.Definition} (h : d.Alike d') :
    (a.classify d').map Procedure.withoutReturns = a.classify d := by
  have hstripped := Sql.returned_stripComments h.body
  have hparameters : d'.parameters.map (·.withoutReturns) = d.parameters :=
    map_eq_of_forall₂ (fun _ _ hp => hp.withoutReturns_eq) h.parameters
  simp only [classify, h.schema, h.name, h.startLine, h.body.lineCount_eq, h.body.preview_eq,
    Body.detect_eq hstripped, Body.tables_eq hstripped, Body.calls_eq hstripped,
    Body.intentOf_eq hstripped]
  cases Assign.assign a.rules a.hints d.name d.schema
      (Body.tables a.known (Sql.stripComments d.body)) with
  | error fault => rfl
  | ok module =>
      simp only [bind, Except.bind, pure, Except.pure, Except.map, Procedure.withoutReturns,
        hparameters, h.body.withoutReturns]

theorem analyzeBlock_of_alike {b b' : Script.Block} (h : b.Alike b') :
    (a.analyzeBlock b').map Procedure.withoutReturns = a.analyzeBlock b := by
  have hparse := Signature.rel_parse? h.text b.startLine
  rw [analyzeBlock, analyzeBlock, h.startLine]
  generalize Signature.Definition.parse? b.text b.startLine = x at hparse
  generalize Signature.Definition.parse? b'.text b.startLine = x' at hparse
  cases hparse with
  | none => rfl
  | @some d d' hd =>
      simp only [← a.classify_of_alike hd]
      cases a.classify d' <;> rfl

theorem analyze_of_alike {bs bs' : List Script.Block}
    (h : List.Forall₂ Script.Block.Alike bs bs') :
    (a.analyze bs').withoutReturns = a.analyze bs := by
  have hresults : (bs'.map a.analyzeBlock).map (Except.map Procedure.withoutReturns) =
      bs.map a.analyzeBlock := by
    rw [List.map_map]
    induction h with
    | nil => rfl
    | cons hb _ ih =>
        rw [List.map_cons, List.map_cons, ih, Function.comp_apply, a.analyzeBlock_of_alike hb]
  rw [analyze, analyze, ← hresults, h.length_eq]
  generalize bs'.map a.analyzeBlock = results
  simp only [Analysis.withoutReturns, List.map_filterMap, List.filterMap_map, List.countP_map]
  congr 2 <;> funext result <;> cases result <;> rfl

end Analyzer

/-! ## Building -/

namespace Catalog

theorem withCodeCallers_withoutReturns (reference : Collaborator.CrossReference)
    (ps : List Procedure) :
    withCodeCallers reference (ps.map (·.withoutReturns)) =
      (withCodeCallers reference ps).map (List.map (·.withoutReturns)) := by
  refine Outcome.mapM_map (fun p => ?_) ps
  change (reference.labels p.name).map _ = _
  cases reference.labels p.name <;> rfl

private def bareBuckets (buckets : Buckets) : Buckets :=
  buckets.map fun (code, ps) => (code, ps.map (·.withoutReturns))

private theorem putBucket_withoutReturns (p : Procedure) (buckets : Buckets) :
    putBucket p.withoutReturns (bareBuckets buckets) = bareBuckets (putBucket p buckets) := by
  induction buckets with
  | nil => rfl
  | cons bucket buckets ih =>
      obtain ⟨code, ps⟩ := bucket
      change putBucket p.withoutReturns
        ((code, ps.map (·.withoutReturns)) :: bareBuckets buckets) = _
      rw [putBucket, putBucket, ih]
      change (if code.sameKey p.moduleCode then _ else _) = _
      split <;> simp [bareBuckets]

private theorem bucketsOf_withoutReturns (ps : List Procedure) :
    bucketsOf (ps.map (·.withoutReturns)) = (bucketsOf ps).map bareBuckets := by
  have hfold : ∀ buckets, (ps.map (·.withoutReturns)).foldl (fun bs p => putBucket p bs)
      (bareBuckets buckets) = bareBuckets (ps.foldl (fun bs p => putBucket p bs) buckets) := by
    induction ps with
    | nil => exact fun _ => rfl
    | cons p ps ih =>
        intro buckets
        rw [List.map_cons, List.foldl_cons, List.foldl_cons, putBucket_withoutReturns, ih]
  have hkeys : (ps.map (·.withoutReturns)).all (fun p => p.moduleCode.isKey) =
      ps.all fun p => p.moduleCode.isKey := by
    rw [List.all_map]
    rfl
  rw [bucketsOf, bucketsOf, hkeys]
  split
  · exact congrArg Except.ok (hfold [])
  · rfl

private theorem bucketOf_withoutReturns (buckets : Buckets) (code : Value) :
    bucketOf (bareBuckets buckets) code = (bucketOf buckets code).map (·.withoutReturns) := by
  induction buckets with
  | nil => rfl
  | cons bucket buckets ih =>
      obtain ⟨key, ps⟩ := bucket
      rw [bucketOf, bucketOf] at ih ⊢
      change ((List.find? _ ((key, ps.map (·.withoutReturns)) :: bareBuckets buckets)).map _).getD _
        = _
      rw [List.find?_cons, List.find?_cons]
      cases key.sameKey code with
      | true => rfl
      | false => exact ih

theorem listingOf_withoutReturns (rules : Assign.Rules) (buckets : Buckets) (code : Value) :
    listingOf rules (bareBuckets buckets) code =
      (listingOf rules buckets code).map (·.withoutReturns) := by
  have hsorted : sortBy Procedure.listedBefore (bucketOf (bareBuckets buckets) code) =
      (sortBy Procedure.listedBefore (bucketOf buckets code)).map (·.withoutReturns) := by
    rw [bucketOf_withoutReturns]
    exact sortBy_map (fun _ _ => rfl) _
  rw [listingOf, listingOf, hsorted]
  cases rules.displayName code <;> rfl

theorem listingsOf_withoutReturns (rules : Assign.Rules) (ps : List Procedure) :
    listingsOf rules (ps.map (·.withoutReturns)) =
      (listingsOf rules ps).map (List.map (·.withoutReturns)) := by
  rw [listingsOf, listingsOf, bucketsOf_withoutReturns]
  refine Outcome.map_bind_eq fun buckets => ?_
  have hcodes : (bareBuckets buckets).map (·.1) = buckets.map (·.1) := by
    rw [bareBuckets, List.map_map]
    rfl
  rw [hcodes]
  cases Value.sorted (buckets.map (·.1)) with
  | error fault => rfl
  | ok codes =>
      have hlistings := Outcome.mapM_map (g := id) (listingOf_withoutReturns rules buckets) codes
      rwa [List.map_id] at hlistings

theorem build_withoutReturns (setting : Setting) (analysis : Analysis) :
    build setting analysis.withoutReturns = (build setting analysis).map (·.withoutReturns) := by
  rw [build, build]
  change withCodeCallers _ (analysis.procedures.map (·.withoutReturns)) >>= _ = _
  rw [withCodeCallers_withoutReturns]
  refine Outcome.map_bind_eq fun ps => ?_
  have hroutines : (ps.map (·.withoutReturns)).map routine = ps.map routine := by
    rw [List.map_map]
    rfl
  simp only [hroutines]
  generalize CallGraph.ofRoutines (ps.map routine) = graph
  have hcallers : (ps.map (·.withoutReturns)).map
        (fun p => { p with procedureCallers := graph.callersOf p.name }) =
      (ps.map fun p => { p with procedureCallers := graph.callersOf p.name }).map
        (·.withoutReturns) := by
    rw [List.map_map, List.map_map]
    rfl
  rw [hcallers, listingsOf_withoutReturns]
  refine Outcome.map_bind_eq fun listings => ?_
  simp only [List.map_map]
  rfl

end Catalog

/-! ## Runs -/

namespace Cataloger

variable (c : Cataloger) (folder : Storage.Folder) (today : Text)

theorem runOn_of_alike {bs bs' : List Script.Block} (h : List.Forall₂ Script.Block.Alike bs bs')
    (batches : Nat) (name path : Text) :
    (c.runOn folder today bs' batches name path).withoutReturns =
      c.runOn folder today bs batches name path := by
  rw [runOn, runOn]
  cases c.analysis.problems with
  | cons problem problems => rfl
  | nil =>
      cases c.collaboratorsFor folder with
      | mk result warnings =>
          cases result with
          | error fault => rfl
          | ok kept =>
              simp only [Run.withoutReturns, catalogOf, ← Analyzer.analyze_of_alike _ h,
                Catalog.build_withoutReturns]
              rfl

/-- A script with carriage returns in front of its line feeds is cataloged as the script without
them. -/
theorem analyzeText_withReturns {t : Text} (h : '\r' ∉ t) (name : Text) :
    (c.analyzeText folder today (Text.withReturns t) name).withoutReturns =
      c.analyzeText folder today t name := by
  obtain ⟨hblocks, hsplitter⟩ := Script.forall₂_split (Returned.withReturns h) {}
  rw [analyzeText, analyzeText]
  simp only [hsplitter]
  exact c.runOn_of_alike folder today hblocks _ _ _

/-- A default and a body that go over two lines each keep their carriage returns. -/
theorem analyzeText_withReturns_of_two_lines :
    ∃ t : Text, '\r' ∉ t ∧
      Text.withReturns t =
        "CREATE PROC a.P @x INT = 'b\r\nc'\r\nAS\r\nSELECT *\r\nFROM d.T\r\nGO\r\n".toList ∧
      (∀ today name,
        (analyzeText {} {} today (Text.withReturns t) name).withoutReturns =
          analyzeText {} {} today t name) ∧
      (((analyzeText {} {} [] (Text.withReturns t) []).result.toOption.map fun c =>
          c.procedures.map fun p => (p.parameters.map (·.default), p.body)) =
        some [([some "'b\r\nc'".toList], "SELECT *\r\nFROM d.T".toList)]) ∧
      ((analyzeText {} {} [] t []).result.toOption.map fun c =>
          c.procedures.map fun p => (p.parameters.map (·.default), p.body, p.tables)) =
        some [([some "'b\nc'".toList], "SELECT *\nFROM d.T".toList, ["T".toList])] := by
  let t : Text := "CREATE PROC a.P @x INT = 'b\nc'\nAS\nSELECT *\nFROM d.T\nGO\n".toList
  have ht : '\r' ∉ t := by decide
  refine ⟨t, ht, by decide +kernel, fun today name => ?_, by decide +kernel, by decide +kernel⟩
  exact analyzeText_withReturns {} {} today ht name

end Cataloger

end ProcCatalog
