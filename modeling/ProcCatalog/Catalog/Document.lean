import ProcCatalog.Catalog.Basic

/-!
# Catalog documents

The catalog document holds all facts about the procedures and the beginnings of their bodies; the
document of a module holds the whole bodies.
-/

namespace ProcCatalog

namespace Value

def member (key : String) (v : Value) : RawText × Value := (Text.raw key.toList, v)

def ofNat (n : Nat) : Value := .int n

def texts (ts : List Text) : Value := .arr (ts.map .text)

def label (s : String) : Value := .text s.toList

end Value

open Value (member)

def Body.Profile.entries (p : Body.Profile) : List (RawText × Value) := [
    member "hasCursor" (.bool p.hasCursor),
    member "hasSelectStar" (.bool p.hasSelectStar),
    member "hasDynamicSql" (.bool p.hasDynamicSql),
    member "hasNolock" (.bool p.hasNolock),
    member "nolockCount" (.ofNat p.nolockCount),
    member "missingSetNocountOn" (.bool p.missingSetNocountOn),
    member "hasTableVariable" (.bool p.hasTableVariable),
    member "hasTempTable" (.bool p.hasTempTable),
    member "hasWhileLoop" (.bool p.hasWhileLoop),
    member "hasNoTryCatch" (.bool p.hasNoTryCatch)
  ]

def Signature.Parameter.document (p : Signature.Parameter) : Value := .obj [
    member "name" (.text p.name),
    member "dataType" (.text p.dataType),
    member "direction" (.label p.direction.label),
    member "defaultValue" (p.default.elim .null .text)
  ]

namespace Procedure

def summary (p : Procedure) : Value := .obj [
    member "name" (.text p.name),
    member "schema" (.text p.schema),
    member "parameters" (.arr (p.parameters.map (·.document))),
    member "lineCount" (.ofNat p.lineCount),
    member "bodyPreview" (.text p.preview),
    member "tablesReferenced" (.texts p.tables),
    member "sprocsCalledFromBody" (.texts p.calls),
    member "calledBySprocs" (.texts p.procedureCallers),
    member "crudType" (.label p.intent.label),
    member "antiPatterns" (.obj p.profile.entries),
    member "calledFromCode" (.arr p.codeCallers),
    member "complexity" (.label p.tier.label),
    member "moduleStrategy" (.label p.moduleStrategy.label)
  ]

def bodyDocument (p : Procedure) : Value := .obj [
    member "name" (.text p.name),
    member "schema" (.text p.schema),
    member "lineCount" (.ofNat p.lineCount),
    member "crudType" (.label p.intent.label),
    member "complexity" (.label p.tier.label),
    member "tablesReferenced" (.texts p.tables),
    member "sprocsCalledFromBody" (.texts p.calls),
    member "body" (.text p.body)
  ]

end Procedure

def Tally.document (t : Tally) : Value := .obj (t.map fun (label, n) => (Text.raw label, .ofNat n))

def Stats.flagCounts (s : Stats) : List (Text × Int) :=
  s.byFlag.map (fun (label, n) => (label, (n : Int))) ++
    [("nolockOccurrences".toList, s.nolockOccurrences)]

def Stats.document (s : Stats) : Value := .obj [
    member "bySchema" s.bySchema.document,
    member "byCrudType" s.byIntent.document,
    member "byComplexity" s.byTier.document,
    member "antiPatternCounts" (.obj (s.flagCounts.map fun (label, n) => (Text.raw label, .int n)))
  ]

def CallGraph.Hotspot.document (h : CallGraph.Hotspot) : Value := .obj [
    member "name" (.text h.name),
    member "schema" (.text h.schema),
    member "callerCount" (.ofNat h.callers),
    member "transitiveCallerCount" (.ofNat h.transitiveCallers)
  ]

def CallGraph.Summary.document (s : CallGraph.Summary) : Value := .obj [
    member "edgeCount" (.ofNat s.edges),
    member "cycles" (.arr (s.cycles.map .texts)),
    member "hotspots" (.arr (s.hotspots.map (·.document))),
    member "unresolvedCalls" (.texts s.unresolvedCalls)
  ]

namespace Listing

def summary (l : Listing) : Value := .obj [
    member "prefix" l.code,
    member "displayName" l.displayName,
    member "procedureCount" (.ofNat l.procedures.length),
    member "procedures" (.arr (l.procedures.map (·.summary)))
  ]

def bodies (l : Listing) : Value := .obj [
    member "module" l.code,
    member "displayName" l.displayName,
    member "procedureCount" (.ofNat l.procedures.length),
    member "procedures" (.arr (l.procedures.map (·.bodyDocument)))
  ]

end Listing

def Catalog.document (c : Catalog) : Value := .obj [
    member "exportDate" (.text c.exportDate),
    member "source" (.text c.source),
    member "totalProcedures" (.ofNat c.totalProcedures),
    member "totalBlocks" (.ofNat c.candidateBlocks),
    member "parseFailures" (.ofNat c.parseFailures),
    member "stats" (c.stats.elim (.obj []) (·.document)),
    member "callGraph" (c.callGraph.elim (.obj []) (·.document)),
    member "modules" (.arr (c.listings.map (·.summary)))
  ]

end ProcCatalog
