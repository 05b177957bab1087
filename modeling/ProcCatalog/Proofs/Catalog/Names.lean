import ProcCatalog.Cataloger
import ProcCatalog.Proofs.Body.Calls
import ProcCatalog.Proofs.CallGraph.Routines
import ProcCatalog.Proofs.Catalog.Building
import ProcCatalog.Proofs.Signature.HeaderEnd

/-!
# Names where procedures are defined and where they are called

A call is listed under the bare name, however it is written. A definition is known by it only if it
has no characters but those of words; any other name is cut off, and calls to it stay unresolved.
-/

namespace ProcCatalog.Catalog

open Signature (Definition HeaderEnd HeaderText Shows)
open Sql (Identifier)

variable {schema name : Identifier} {own : Text} {ps : List Procedure}

/-! ## Definitions -/

/-- The text of a procedure without parameters. -/
def define (schema name : Identifier) (body : Text) : Text :=
  Signature.creationWords ++
    ([' '] ++ (schema.write ++ '.' :: (name.write ++ ("\nAS\n".toList ++ body))))

def IsWord (i : Identifier) : Prop := ∀ x ∈ i.bare, Text.isWord x = true

theorem exists_parse?_define (hschema : IsWord schema) (hname : IsWord name) (body : Text)
    (startLine : Int) :
    ∃ strategy, Definition.parse? (define schema name body) startLine =
      some ⟨schema.bare, name.bare, [], body, some strategy, startLine⟩ := by
  let last : HeaderEnd := ⟨[], ['\n'], by simp, .inl rfl⟩
  let schemaWord : Text.Token Text.isWord := ⟨schema.bare, schema.bare_ne_nil, hschema⟩
  let nameWord : Text.Token Text.isWord := ⟨name.bare, name.bare_ne_nil, hname⟩
  have hschemaShows : Signature.Shows schemaWord.text schema.write := schema.write_eq
  have hnameShows : Signature.Shows nameWord.text name.write := name.write_eq
  have hheader : HeaderText [] := ⟨by simp, by decide, by decide⟩
  obtain ⟨found, hfind, hschema, hname, hrest⟩ :=
    Signature.find?_procedureName_of_shows hschemaShows hnameShows
      (Signature.head?_header hheader.blank Text.isBlank_lineFeed (last.write ++ body))
  obtain ⟨strategy, -, hparse⟩ := Signature.parse?_of_headerText hfind hschema hname hheader
    Text.isBlank_lineFeed last body hrest startLine
  have hnone : Signature.parseParameters [] = [] := by decide +kernel
  rw [hnone] at hparse
  exact ⟨strategy, hparse⟩

theorem exists_parse?_define_iff (schema name : Identifier) (body : Text) (startLine : Int) :
    (∃ d, Definition.parse? (define schema name body) startLine = some d ∧
        d.schema = schema.bare ∧ d.name = name.bare) ↔ IsWord schema ∧ IsWord name := by
  constructor
  · rintro ⟨d, hd, hschema, hname⟩
    have hwords := Signature.isWord_of_parse? hd
    rw [hschema, hname] at hwords
    exact hwords
  · rintro ⟨hschema, hname⟩
    obtain ⟨strategy, hd⟩ := exists_parse?_define hschema hname body startLine
    exact ⟨_, hd, rfl, rfl⟩

/-! ## Calls -/

/-- A call leads to the procedures of its name, or it is unresolved if there are none. -/
structure Resolves (ps : List Procedure) (own call : Text) : Prop where
  known : ∀ p ∈ ps, p.name = call →
    (Text.lower own, Text.lower call) ∈ (graphOf ps).edges ∧ call ∉ (graphOf ps).unresolved
  unknown : (∀ p ∈ ps, Text.lower p.name ≠ Text.lower call) → call ∈ (graphOf ps).unresolved

theorem resolves_of_mem {caller : Procedure} (hcaller : caller ∈ ps) {call : Text}
    (hcall : call ∈ caller.calls) : Resolves ps caller.name call := by
  have hroutine : routine caller ∈ ps.map routine := List.mem_map_of_mem hcaller
  constructor
  · rintro p hp rfl
    have hnamed : CallGraph.Named (ps.map routine) (Text.lower p.name) :=
      ⟨routine p, List.mem_map_of_mem hp, rfl⟩
    constructor
    · exact CallGraph.mem_edges.mpr ⟨⟨_, hroutine, rfl, _, hcall, rfl⟩, hnamed⟩
    · intro hunresolved
      exact (CallGraph.mem_unresolved.mp hunresolved).2 hnamed
  · intro hother
    refine CallGraph.mem_unresolved.mpr ⟨⟨_, hroutine, hcall⟩, ?_⟩
    rintro ⟨_, hr, hname⟩
    obtain ⟨p, hp, rfl⟩ := List.mem_map.mp hr
    exact hother p hp hname

/-- A call is listed under the bare name. The definition is known by its schema and that name
exactly if both are words. -/
theorem named_alike (schema name : Identifier) (hcallable : Body.Callable own name.bare) :
    Body.calls own (Body.execute schema name) = [name.bare] ∧
    (∀ body startLine,
      ((∃ d, Definition.parse? (define schema name body) startLine = some d ∧
          d.schema = schema.bare ∧ d.name = name.bare) ↔ IsWord schema ∧ IsWord name) ∧
      ∀ d, Definition.parse? (define schema name body) startLine = some d →
        (d.name = name.bare → IsWord name) ∧
        (IsWord schema → IsWord name → d.parameters = [] ∧ d.body = body)) ∧
    ∀ ps : List Procedure, ∀ caller ∈ ps, caller.name = own →
      caller.calls = Body.calls own (Body.execute schema name) → Resolves ps own name.bare := by
  have hcalls := Body.calls_execute schema name hcallable
  refine ⟨hcalls, fun body startLine => ⟨exists_parse?_define_iff schema name body startLine,
    fun d hd => ⟨?_, ?_⟩⟩, ?_⟩
  · intro hname
    have hword := (Signature.isWord_of_parse? hd).2
    rwa [hname] at hword
  · intro hschema hname
    obtain ⟨strategy, hparse⟩ := exists_parse?_define hschema hname body startLine
    rw [hparse] at hd
    cases hd
    exact ⟨rfl, rfl⟩
  · rintro ps caller hcaller rfl hlisted
    exact resolves_of_mem hcaller (by rw [hlisted, hcalls]; exact List.mem_singleton_self _)

/-- A schema in brackets and a name without them. -/
theorem named_alike_of_words :
    Body.Callable "Report".toList "Get_Orders".toList ∧
    Body.calls "Report".toList "EXEC [dbo].Get_Orders".toList = ["Get_Orders".toList] ∧
    (∃ d, Definition.parse? "CREATE PROCEDURE [dbo].Get_Orders\nAS\nSELECT 1".toList 1 = some d ∧
      d.schema = "dbo".toList ∧ d.name = "Get_Orders".toList ∧ d.parameters = [] ∧
      d.body = "SELECT 1".toList) ∧
    ∀ ps : List Procedure, ∀ caller ∈ ps, caller.name = "Report".toList →
      caller.calls = ["Get_Orders".toList] → Resolves ps "Report".toList "Get_Orders".toList := by
  let schema : Identifier := .bracketed (.ofAll "dbo".toList rfl rfl)
  let name : Identifier := .plain (.ofAll "Get_Orders".toList rfl rfl) rfl
  have hcallable : Body.Callable "Report".toList name.bare :=
    ⟨by decide, by decide +kernel, by decide +kernel, by decide +kernel⟩
  have hschema : IsWord schema := List.all_eq_true.mp (by decide)
  have hname : IsWord name := List.all_eq_true.mp (by decide)
  obtain ⟨hcalls, hread, hresolves⟩ := named_alike schema name hcallable
  obtain ⟨hiff, hmore⟩ := hread "SELECT 1".toList 1
  obtain ⟨d, hd, hdSchema, hdName⟩ := hiff.mpr ⟨hschema, hname⟩
  obtain ⟨hparameters, hbody⟩ := (hmore d hd).2 hschema hname
  refine ⟨hcallable, hcalls, ⟨d, hd, hdSchema, hdName, hparameters, hbody⟩, ?_⟩
  intro ps caller hcaller hown hlisted
  exact hresolves ps caller hcaller hown (hlisted.trans hcalls.symm)

/-- A name in brackets is cut off at a blank: the procedure is filed under another name, and the
call to it is unresolved. -/
theorem not_named_alike_of_blank :
    let text : Text := "CREATE PROCEDURE dbo.[Get Orders]\nAS\nSELECT 1\nGO\n".toList ++
      "CREATE PROC dbo.Report AS EXEC dbo.[Get Orders]".toList
    Body.Callable "Report".toList "Get Orders".toList ∧
    Body.calls "Report".toList "EXEC dbo.[Get Orders]".toList = ["Get Orders".toList] ∧
    (Definition.parse? "CREATE PROCEDURE dbo.[Get Orders]\nAS\nSELECT 1".toList 1).map (·.name) =
      some "Get".toList ∧
    ((Cataloger.analyzeText {} {} [] text []).result.toOption.bind (·.callGraph)).map
      (·.unresolvedCalls) = some ["Get Orders".toList] := by
  refine ⟨⟨?_, ?_, ?_, ?_⟩, ?_, ?_, ?_⟩
  all_goals decide +kernel

end ProcCatalog.Catalog
