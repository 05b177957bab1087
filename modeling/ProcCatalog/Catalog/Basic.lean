import ProcCatalog.CallGraph.Summary
import ProcCatalog.Catalog.Stats
import ProcCatalog.Collaborator.CrossReference

/-!
# Catalogs

A catalog groups the procedures of a script by module and adds what can only be told of all of
them together: statistics, the call graph, and for each procedure who calls it.
-/

namespace ProcCatalog

structure Listing where
  code : Value
  displayName : Value
  procedures : List Procedure
  deriving Repr

structure Catalog where
  source : Text := []
  exportDate : Text := []
  totalBatches : Nat := 0
  candidateBlocks : Nat := 0
  parseFailures : Nat := 0
  listings : List Listing := []
  stats : Option Stats := none
  callGraph : Option CallGraph.Summary := none
  deriving Repr

namespace Catalog

def empty : Catalog := {}

def procedures (c : Catalog) : List Procedure := c.listings.flatMap (·.procedures)

def totalProcedures (c : Catalog) : Nat := total (c.listings.map (·.procedures.length))

/-- The procedures of a bare or schema-qualified name, without regard to case. -/
def find (c : Catalog) (name : Text) : List Procedure :=
  let wanted := Text.lower (Text.trim name)
  c.procedures.filter fun p => Text.lower p.name == wanted || Text.lower p.fullName == wanted

/-- The module of a code, without regard to case. -/
def listing? (c : Catalog) (code : RawText) : Outcome (Option Listing) :=
  go code.lower c.listings
where
  go (wanted : RawText) : List Listing → Outcome (Option Listing)
    | [] => .ok none
    | l :: ls => do if (← l.code.lower) == wanted then return some l else go wanted ls

/-! ## Building -/

def routine (p : Procedure) : Routine := ⟨p.schema, p.name, p.calls⟩

/-- The procedures of each code, in the order in which the codes come up. -/
abbrev Buckets := List (Value × List Procedure)

def putBucket (p : Procedure) : Buckets → Buckets
  | [] => [(p.moduleCode, [p])]
  | (code, ps) :: rest =>
    if code.sameKey p.moduleCode then (code, ps ++ [p]) :: rest else (code, ps) :: putBucket p rest

def bucketsOf (ps : List Procedure) : Outcome Buckets :=
  if ps.all fun p => p.moduleCode.isKey then
    .ok (ps.foldl (fun buckets p => putBucket p buckets) [])
  else .error .wrongType

def bucketOf (buckets : Buckets) (code : Value) : List Procedure :=
  ((buckets.find? fun b => b.1.sameKey code).map (·.2)).getD []

def listingOf (rules : Assign.Rules) (buckets : Buckets) (code : Value) : Outcome Listing := do
  let displayName ← rules.displayName code
  return ⟨code, displayName, sortBy Procedure.listedBefore (bucketOf buckets code)⟩

def listingsOf (rules : Assign.Rules) (ps : List Procedure) : Outcome (List Listing) := do
  let buckets ← bucketsOf ps
  let codes ← Value.sorted (buckets.map (·.1))
  codes.mapM (listingOf rules buckets)

def withCodeCallers (reference : Collaborator.CrossReference) (ps : List Procedure) :
    Outcome (List Procedure) :=
  ps.mapM fun p => (reference.labels p.name).map fun labels => { p with codeCallers := labels }

/-- What is needed beside the procedures to build a catalog. -/
structure Setting where
  rules : Assign.Rules := .standard
  crossReference : Collaborator.CrossReference := []
  hotspotLimit : Int := 10
  source : Text := []
  exportDate : Text := []
  totalBatches : Nat := 0

def build (setting : Setting) (analysis : Analysis) : Outcome Catalog := do
  let ps ← withCodeCallers setting.crossReference analysis.procedures
  let graph := CallGraph.ofRoutines (ps.map routine)
  let ps := ps.map fun p => { p with procedureCallers := graph.callersOf p.name }
  let listings ← listingsOf setting.rules ps
  return {
    source := setting.source
    exportDate := setting.exportDate
    totalBatches := setting.totalBatches
    candidateBlocks := analysis.blocks
    parseFailures := analysis.parseFailures
    listings
    stats := some (.ofFacts (ps.map (·.fact)))
    callGraph := some (graph.summary setting.hotspotLimit) }

end Catalog

end ProcCatalog
